import ReductStore.Storage.CopyRecords
import ReductStore.Storage.Primitives

set_option autoImplicit false

namespace ReductStore.BlockManager

open TreeMap

variable [Codec]

section Rewrite

theorem Steady.rewrite {before changed : BlockManager} (steady : before.Steady) {blockId : Nat} {ref : BlockRef}
    (cached : before.Cached blockId ref) {block : Block} (name : block.blockId = blockId)
    (edited : Edited before changed ref block) :
    (changed.saveMetaOnDisk ref).Steady ∧
      (changed.saveMetaOnDisk ref).view = Function.update before.view blockId (some block) := by
  have oldTitle := steady.named blockId ref cached
  have wired := edited.wired steady.toWired (name.trans oldTitle.symm)
  have content : changed.heap ref = block := by rw [edited.heap, Function.update_self]
  have title : (changed.heap ref).blockId = blockId := by rw [content, name]
  have changedServed (other : Nat) := edited.inService (name ▸ steady.served blockId ref cached) other
  obtain ⟨savedWired, served⟩ := wired.saveMeta ref
  have only (other : BlockRef) (found : changed.Cached (changed.heap ref).blockId other) : other = ref := by
    rw [title] at found
    simp only [Cached, edited.write, edited.read] at found
    exact steady.agree blockId other ref found cached
  have candidate (other : Nat) (found : Block) (present : (changed.saveMetaOnDisk ref).Candidate other found) :
      (other = blockId ∧ found = block) ∨ (other ≠ blockId ∧ before.Candidate other found) := by
    rcases candidate_saveMeta ref only other found present with ⟨same, rfl⟩ | ⟨apart, was⟩
    · exact Or.inl ⟨same.trans title, content⟩
    · rw [title] at apart
      exact Or.inr ⟨apart, edited.candidate steady.toWired other found (oldTitle ▸ apart.symm) was⟩
  have inService (other : Nat) :
      (changed.saveMetaOnDisk ref).InService other ↔ before.InService other ∨ other = blockId := by
    rw [served, title, changedServed]
  have after : (changed.saveMetaOnDisk ref).Steady := by
    refine { savedWired with backed := ?_, settled := steady.settled_update candidate }
    intro other listed
    by_cases same : other = (changed.heap ref).blockId
    · obtain ⟨proto, _, desc, _⟩ := saveMeta_saved changed ref
      exact Or.inr ⟨proto, same ▸ desc⟩
    · have untouched := (saveMeta_untouched changed ref other (Ne.symm same)).1
      have old := steady.backed other (((inService other).mp listed).resolve_right (title ▸ same))
      rw [Backed, untouched, edited.desc]
      rcases old with ⟨found, write⟩ | desc
      · exact Or.inl ⟨found, by rw [← write, ← edited.write]; rfl⟩
      · exact Or.inr desc
  exact ⟨after, view_update steady after blockId block inService candidate⟩

structure Forgotten (before after : BlockManager) (blockId : Nat) : Prop where
  heap : ∀ other ref, other ≠ blockId → before.Cached other ref → after.heap ref = before.heap ref
  next : after.next = before.next
  write : after.writeCache = before.writeCache.erase blockId
  read : after.readCache = before.readCache.erase blockId
  desc : ∀ other : Nat, other ≠ blockId → after.disk.desc[other]? = before.disk.desc[other]?
  titled : ∀ proto, after.disk.desc[blockId]? = some proto → proto.beginTime = blockId
  index : ∀ other : Nat, other ≠ blockId → after.blockIndex[other]? = before.blockIndex[other]?
  gone : ¬ after.InService blockId

theorem Forgotten.steady {before after : BlockManager} {blockId : Nat} (forgotten : Forgotten before after blockId)
    (steady : before.Steady) : after.Steady ∧ after.view = Function.update before.view blockId none := by
  have cached (other : Nat) (ref : BlockRef) (present : after.Cached other ref) :
      other ≠ blockId ∧ before.Cached other ref := by
    simp only [Cached, forgotten.write, forgotten.read, get_erase] at present
    by_cases same : other = blockId
    · simp [same] at present
    · simpa [same, Cached] using present
  have served (other : Nat) (different : other ≠ blockId) : after.InService other ↔ before.InService other := by
    rw [inService_iff, inService_iff, forgotten.index other different]
  have apart (other : Nat) (listed : after.InService other) : other ≠ blockId := by
    rintro rfl
    exact forgotten.gone listed
  have candidate (other : Nat) (different : other ≠ blockId) (block : Block) (present : after.Candidate other block) :
      before.Candidate other block := by
    rcases present with ⟨ref, found, rfl⟩ | ⟨absent, proto, found, rfl⟩
    · have old := (cached other ref found).2
      exact Or.inl ⟨ref, old, (forgotten.heap other ref different old).symm⟩
    · rw [forgotten.write, get_erase, if_neg different] at absent
      rw [forgotten.desc other different] at found
      exact Or.inr ⟨absent, proto, found, rfl⟩
  have result : after.Steady := by
    refine { fresh := ?_, agree := ?_, named := ?_, titled := ?_, served := ?_, checked := ?_, backed := ?_, settled := ?_ }
    · intro other ref found
      rw [forgotten.next]
      exact steady.fresh other ref (cached other ref found).2
    · intro other first second left right
      exact steady.agree other first second (cached other first left).2 (cached other second right).2
    · intro other ref found
      obtain ⟨different, old⟩ := cached other ref found
      rw [forgotten.heap other ref different old]
      exact steady.named other ref old
    · intro other proto found
      by_cases same : other = blockId
      · exact same ▸ forgotten.titled proto (same ▸ found)
      · exact steady.titled other proto (forgotten.desc other same ▸ found)
    · intro other ref found
      obtain ⟨different, old⟩ := cached other ref found
      exact (served other different).mpr (steady.served other ref old)
    · intro other entry crc indexed sound sum
      have different := apart other ((inService_iff after other).mpr ⟨entry, indexed, sound⟩)
      rw [forgotten.desc other different]
      exact steady.checked other entry crc (forgotten.index other different ▸ indexed) sound sum
    · intro other listed
      have different := apart other listed
      rw [Backed, forgotten.write, get_erase, if_neg different, forgotten.desc other different]
      exact steady.backed other ((served other different).mp listed)
    · intro other first second left right
      by_cases same : other = blockId
      · -- only the descriptor is left of the block
        subst same
        rcases left with ⟨ref, found, _⟩ | ⟨_, proto, found, rfl⟩
        · exact absurd rfl (cached other ref found).1
        rcases right with ⟨ref, present, _⟩ | ⟨_, proto', present, rfl⟩
        · exact absurd rfl (cached other ref present).1
        rw [Option.some.inj (found.symm.trans present)]
      · exact steady.settled other first second (candidate other same first left) (candidate other same second right)
  refine ⟨result, ?_⟩
  funext other
  by_cases same : other = blockId
  · rw [same, Function.update_self]
    exact (result.view_none blockId).mpr forgotten.gone
  · rw [Function.update_of_ne same]
    cases seen : after.view other with
    | none =>
      have outside := (result.view_none other).mp seen
      exact ((steady.view_none other).mpr (fun listed => outside ((served other same).mpr listed))).symm
    | some block =>
      obtain ⟨listed, present⟩ := (result.view_iff other block).mp seen
      exact ((steady.view_iff other block).mpr
        ⟨(served other same).mp listed, candidate other same block present⟩).symm

end Rewrite

section Retained

@[simp] theorem getRecord_retained (times : List Nat) (block : Block) (time : Nat) :
    (retained block times).getRecord time = if time ∈ times then none else block.getRecord time := by
  induction times generalizing block with
  | nil => simp [retained]
  | cons first rest ih =>
    change (retained (block.removeRecord first) rest).getRecord time = _
    rw [ih, Block.getRecord_removeRecord]
    by_cases later : time ∈ rest
    · simp [later]
    · by_cases same : time = first <;> simp [later, same]

@[simp] theorem blockId_retained (times : List Nat) (block : Block) : (retained block times).blockId = block.blockId := by
  induction times generalizing block with
  | nil => rfl
  | cons first rest ih => exact (ih (block.removeRecord first)).trans (Block.blockId_removeRecord block first)

theorem accounted_retained (times : List Nat) {block : Block} (accounted : block.Accounted) :
    (retained block times).Accounted := by
  induction times generalizing block with
  | nil => exact accounted
  | cons first rest ih => exact ih (accounted.removeRecord first)

theorem separated_retained (times : List Nat) {block : Block} (separated : block.Separated) :
    (retained block times).Separated := by
  induction times generalizing block with
  | nil => exact separated
  | cons first rest ih => exact ih (separated.removeRecord first)

omit [Codec] in
@[simp] theorem blockId_reposition (positions : List (Nat × Nat × Nat)) (block : Block) :
    (block.reposition positions).blockId = block.blockId := by
  induction positions generalizing block with
  | nil => rfl
  | cons position rest ih => exact (ih _).trans (Block.blockId_modifyRecord block _ _ _)

end Retained

section Steps

variable (ref : BlockRef) (blockId : Nat)

omit [Codec] in
theorem appendLog_setBlock (entries : List WalEntry) (manager : BlockManager) (block : Block) :
    (manager.setBlock ref block).appendLog blockId entries = (manager.appendLog blockId entries).setBlock ref block := by
  induction entries generalizing manager with
  | nil => rfl
  | cons entry rest ih => exact ih (manager.walAppend blockId entry)

omit [Codec] in
theorem setBlock_setBlock (manager : BlockManager) (first second : Block) :
    (manager.setBlock ref first).setBlock ref second = manager.setBlock ref second := by
  simp [setBlock]

theorem run_dropSteps (times : List Nat) (manager : BlockManager) :
    (dropSteps times).foldl (runRemoval ref blockId) manager =
      (manager.appendLog blockId (times.map .removeRecord)).setBlock ref (retained (manager.heap ref) times) := by
  induction times generalizing manager with
  | nil => simp [dropSteps, appendLog, retained, setBlock]
  | cons time rest ih =>
    have content : (((manager.setBlock ref ((manager.heap ref).removeRecord time)).walAppend blockId
        (.removeRecord time)).heap ref) = (manager.heap ref).removeRecord time := by
      simp [walAppend, setBlock]
    change (dropSteps rest).foldl (runRemoval ref blockId)
      ((manager.walAppend blockId (.removeRecord time)).setBlock ref ((manager.heap ref).removeRecord time)) = _
    rw [ih, appendLog_setBlock, setBlock_setBlock]
    simp only [setBlock, Function.update_self]
    rfl

def withTemp (manager : BlockManager) (file : File) : BlockManager :=
  { manager with disk := { manager.disk with temp := manager.disk.temp.insert blockId file } }

omit [Codec] in
theorem withTemp_withTemp (manager : BlockManager) (first second : File) :
    withTemp blockId (withTemp blockId manager first) second = withTemp blockId manager second := by
  have same : (manager.disk.temp.insert blockId first).insert blockId second = manager.disk.temp.insert blockId second := by
    refine ext_get fun key => ?_
    simp only [get_insert]
    split_ifs <;> rfl
  simp only [withTemp, same]

theorem run_writeTemps (buffers : List (List UInt8)) (manager : BlockManager) (written rest : File) :
    (writeTemps written.length buffers).foldl (runRemoval ref blockId) (withTemp blockId manager (written ++ rest)) =
      withTemp blockId manager (written ++ (buffers.flatten ++ rest.drop buffers.flatten.length)) := by
  induction buffers generalizing written rest with
  | nil => simp [writeTemps]
  | cons buffer more ih =>
    have stored : (withTemp blockId manager (written ++ rest)).disk.temp[blockId]? = some (written ++ rest) := by
      simp [withTemp]
    have step : runRemoval ref blockId (withTemp blockId manager (written ++ rest)) (.writeTemp written.length buffer) =
        withTemp blockId manager ((written ++ buffer) ++ rest.drop buffer.length) := by
      change withTemp blockId _ (File.writeAt (((withTemp blockId manager _).disk.temp[blockId]?).getD []) _ _) = _
      rw [stored, Option.getD_some, File.writeAt_append, withTemp_withTemp, List.append_assoc]
    rw [writeTemps, List.foldl_cons, step]
    have next := ih (written ++ buffer) (rest.drop buffer.length)
    rw [List.length_append] at next
    rw [next, List.append_assoc, List.drop_drop, List.flatten_cons, List.length_append, List.append_assoc]

theorem run_openTemp (buffers : List (List UInt8)) (manager : BlockManager) :
    (.openTemp :: writeTemps 0 buffers).foldl (runRemoval ref blockId) manager =
      withTemp blockId manager
        (buffers.flatten ++ (manager.disk.temp[blockId]?.getD []).drop buffers.flatten.length) :=
  run_writeTemps ref blockId buffers manager [] (manager.disk.temp[blockId]?.getD [])

end Steps

section Outcomes

def dropped (manager : BlockManager) (ref : BlockRef) (blockId : Nat) (times : List Nat) : BlockManager :=
  (manager.appendLog blockId (times.map .removeRecord)).setBlock ref (retained (manager.heap ref) times)

variable {manager : BlockManager} {blockId : Nat} {ref : BlockRef}

theorem dropped_edited (manager : BlockManager) (ref : BlockRef) (blockId : Nat) (times : List Nat) :
    Edited manager (manager.dropped ref blockId times) ref (retained (manager.heap ref) times) := by
  obtain ⟨memory, desc, _, index⟩ := appendLog_memory (times.map .removeRecord) manager blockId
  exact { heap := congrArg (Function.update · ref _) memory.heap, next := memory.next, write := memory.write
          read := memory.read, desc := desc, index := Or.inl index }

theorem dropped_data (manager : BlockManager) (ref : BlockRef) (blockId : Nat) (times : List Nat) :
    (manager.dropped ref blockId times).disk.data = manager.disk.data ∧
      (manager.dropped ref blockId times).disk.temp = manager.disk.temp := by
  have memory := (appendLog_memory (times.map .removeRecord) manager blockId).1
  exact ⟨memory.data, memory.temp⟩

theorem Steady.cached_apart (steady : manager.Steady) (cached : manager.Cached blockId ref) {other : Nat}
    {found : BlockRef} (different : other ≠ blockId) (present : manager.Cached other found) : found ≠ ref := by
  rintro rfl
  exact different (steady.toWired.distinct present cached)

structure Isolated (before changed : BlockManager) (blockId : Nat) : Prop where
  heap : ∀ other ref, other ≠ blockId → before.Cached other ref → changed.heap ref = before.heap ref
  next : changed.next = before.next
  write : changed.writeCache = before.writeCache
  read : changed.readCache = before.readCache
  desc : changed.disk.desc = before.disk.desc
  index : changed.blockIndex = before.blockIndex

theorem Steady.isolated_dropped (steady : manager.Steady) (cached : manager.Cached blockId ref) (times : List Nat) :
    Isolated manager (manager.dropped ref blockId times) blockId := by
  have edited := dropped_edited manager ref blockId times
  have indexed : (manager.dropped ref blockId times).blockIndex = manager.blockIndex :=
    (appendLog_memory (times.map .removeRecord) manager blockId).2.2.2
  refine ⟨?_, edited.next, edited.write, edited.read, edited.desc, indexed⟩
  intro other found different present
  exact (congrFun edited.heap found).trans (Function.update_of_ne (steady.cached_apart cached different present) _ _)

omit [Codec] in
theorem Isolated.forget_removed {changed : BlockManager} (isolated : Isolated manager changed blockId) :
    Forgotten manager (changed.removeBlock blockId) blockId := by
  refine { heap := isolated.heap, next := isolated.next, write := congrArg (·.erase blockId) isolated.write
           read := congrArg (·.erase blockId) isolated.read, desc := ?_, titled := ?_, index := ?_, gone := ?_ }
  · intro other different
    simp [removeBlock, walRemove, removeCached, saveIndex, removeBlockFiles, walAppend, different, isolated.desc]
  · simp [removeBlock, walRemove, removeCached, saveIndex, removeBlockFiles, walAppend]
  · intro other different
    simp [removeBlock, walRemove, removeCached, saveIndex, removeBlockFiles, walAppend, different, isolated.index]
  · simp [inService_iff, removeBlock, walRemove, removeCached, saveIndex, removeBlockFiles, walAppend]

theorem Isolated.forget_corrupted {changed : BlockManager} (isolated : Isolated manager changed blockId)
    (steady : manager.Steady) : Forgotten manager (changed.markBlockCorrupted blockId) blockId := by
  have stored : (changed.markBlockCorrupted blockId).disk.desc =
      manager.disk.desc[blockId]?.elim manager.disk.desc fun proto =>
        manager.disk.desc.insert blockId { proto with corrupted := some true } := by
    rw [← isolated.desc]
    cases found : changed.disk.desc[blockId]? <;> simp [markBlockCorrupted, removeCached, saveIndex, found]
  have memory : (changed.markBlockCorrupted blockId).heap = changed.heap ∧
      (changed.markBlockCorrupted blockId).next = changed.next ∧
      (changed.markBlockCorrupted blockId).writeCache = changed.writeCache.erase blockId ∧
      (changed.markBlockCorrupted blockId).readCache = changed.readCache.erase blockId ∧
      (changed.markBlockCorrupted blockId).blockIndex = changed.blockIndex.markCorrupted blockId := by
    cases found : changed.disk.desc[blockId]? <;> simp [markBlockCorrupted, removeCached, saveIndex, found]
  obtain ⟨heapEq, nextEq, writeEq, readEq, indexEq⟩ := memory
  refine { heap := ?_, next := nextEq.trans isolated.next, write := by rw [writeEq, isolated.write]
           read := by rw [readEq, isolated.read], desc := ?_, titled := ?_, index := ?_, gone := ?_ }
  · intro other found different present
    rw [heapEq]
    exact isolated.heap other found different present
  · intro other different
    rw [stored]
    cases manager.disk.desc[blockId]? <;> simp [different]
  · intro proto found
    rw [stored] at found
    cases old : manager.disk.desc[blockId]? with
    | none => simp [old] at found
    | some before =>
      simp only [old, Option.elim_some, get_insert, if_true, Option.some.injEq] at found
      rw [← found]
      exact steady.titled blockId before old
  · intro other different
    rw [indexEq, isolated.index]
    cases old : manager.blockIndex[blockId]? <;> simp [BlockIndex.markCorrupted, old, different]
  · rw [inService_iff, indexEq]
    cases old : changed.blockIndex[blockId]? <;> simp [BlockIndex.markCorrupted, old]

def replaced (manager : BlockManager) (ref : BlockRef) (blockId : Nat) (positions : List (Nat × Nat × Nat)) : BlockManager :=
  [.moveRecords positions, .removeData, .renameTemp, .openData].foldl (runRemoval ref blockId) manager

theorem replaced_memory (manager : BlockManager) (ref : BlockRef) (positions : List (Nat × Nat × Nat)) :
    Edited manager (manager.replaced ref blockId positions) ref ((manager.heap ref).reposition positions) :=
  { heap := rfl, next := rfl, write := rfl, read := rfl, desc := rfl, index := Or.inl rfl }

theorem saveMeta_steps (manager : BlockManager) (ref : BlockRef) (name : (manager.heap ref).blockId = blockId) :
    [.writeDescriptor, .indexDescriptor, .saveIndex, .removeLog].foldl (runRemoval ref blockId) manager =
      manager.saveMetaOnDisk ref := by
  subst name
  rfl

theorem run_replaceSteps (manager : BlockManager) (ref : BlockRef) (positions : List (Nat × Nat × Nat))
    (name : (manager.heap ref).blockId = blockId) :
    (replaceSteps positions).foldl (runRemoval ref blockId) manager =
      (manager.replaced ref blockId positions).saveMetaOnDisk ref := by
  have title : ((manager.replaced ref blockId positions).heap ref).blockId = blockId := by
    change ((Function.update manager.heap ref ((manager.heap ref).reposition positions)) ref).blockId = blockId
    rw [Function.update_self, blockId_reposition, name]
  have split : replaceSteps positions = [.moveRecords positions, .removeData, .renameTemp, .openData] ++
      [.writeDescriptor, .indexDescriptor, .saveIndex, .removeLog] := rfl
  rw [split, List.foldl_append, ← replaced, saveMeta_steps _ ref title]

theorem replaced_data (blockId : Nat) (manager : BlockManager) (ref : BlockRef) (positions : List (Nat × Nat × Nat)) (file : File)
    (other : Nat) :
    ((withTemp blockId manager file).replaced ref blockId positions).disk.data[other]? =
      if other = blockId then some file else manager.disk.data[other]? := by
  by_cases same : other = blockId
  · simp [replaced, runRemoval, withTemp, setBlock, modifyData, same]
  · simp [replaced, runRemoval, withTemp, setBlock, modifyData, same]

inductive RemovalOutcome (before : BlockManager) (blockId : Nat) (block : Block) (file : File) :
    Except ReductError Unit → BlockManager → Prop where
  | emptied {after : BlockManager} (empty : block.recordCount = 0)
      (view : after.view = Function.update before.view blockId none) : RemovalOutcome before blockId block file (.ok ()) after
  | damaged {after : BlockManager} {failure : ReductError} (kept : block.recordCount ≠ 0)
      (short : ∃ record ∈ block.records, ¬ Readable file record)
      (view : after.view = Function.update before.view blockId none) :
      RemovalOutcome before blockId block file (.error failure) after
  | compacted {after : BlockManager} (tail : File) (kept : block.recordCount ≠ 0)
      (readable : ∀ record ∈ block.records, Readable file record)
      (view : after.view = Function.update before.view blockId (some block.compact))
      (data : after.disk.data[blockId]? = some (Placement.contents (contentsOf file block.records) ++ tail)) :
      RemovalOutcome before blockId block file (.ok ()) after

theorem run_removal_emptied (manager : BlockManager) (ref : BlockRef) (times : List Nat)
    (empty : (retained (manager.heap ref) times).recordCount = 0) :
    (manager.removalSteps ref times).foldl (runRemoval ref blockId) manager =
      (manager.dropped ref blockId times).removeBlock blockId := by
  rw [removalSteps, if_pos empty, List.foldl_append, run_dropSteps]
  rfl

def finalSteps : Except ReadFailure (List (Nat × Nat × Nat)) → List RemovalStep
  | .ok positions => replaceSteps positions
  | .error failure => [.abandon failure.unexpectedEof]

theorem run_copied (blockId : Nat) (manager : BlockManager) (ref : BlockRef) (times : List Nat)
    (buffers : List (List UInt8)) :
    (dropSteps times ++ (.openTemp :: writeTemps 0 buffers)).foldl (runRemoval ref blockId) manager =
      withTemp blockId (manager.dropped ref blockId times)
        (buffers.flatten ++ (manager.disk.temp[blockId]?.getD []).drop buffers.flatten.length) := by
  have sameTemp := (dropped_data manager ref blockId times).2
  rw [List.foldl_append, run_dropSteps]
  change (_ :: writeTemps 0 buffers).foldl _ (manager.dropped ref blockId times) = _
  rw [run_openTemp, sameTemp]

theorem run_removal_copied (blockId : Nat) (manager : BlockManager) (ref : BlockRef) (times : List Nat)
    (kept : (retained (manager.heap ref) times).recordCount ≠ 0)
    (buffers : List (List UInt8)) (result : Except ReadFailure (List (Nat × Nat × Nat)))
    (copied : copyRecords (manager.dataPath (retained (manager.heap ref) times).blockId)
      manager.disk.data[(retained (manager.heap ref) times).blockId]?
      (retained (manager.heap ref) times).records 0 = (buffers, result)) :
    (manager.removalSteps ref times).foldl (runRemoval ref blockId) manager =
      (finalSteps result).foldl (runRemoval ref blockId) (withTemp blockId (manager.dropped ref blockId times)
        (buffers.flatten ++ (manager.disk.temp[blockId]?.getD []).drop buffers.flatten.length)) := by
  rw [removalSteps, if_neg kept, compactSteps, copied]
  change (dropSteps times ++ ((.openTemp :: writeTemps 0 buffers) ++ finalSteps result)).foldl _ manager = _
  rw [← List.append_assoc, List.foldl_append, run_copied]

omit [Codec] in
theorem Edited.trans {before middle after : BlockManager} {ref : BlockRef} {first second : Block}
    (left : Edited before middle ref first) (right : Edited middle after ref second)
    (unlisted : middle.blockIndex = before.blockIndex) (kept : after.blockIndex = middle.blockIndex) :
    Edited before after ref second := by
  refine { heap := ?_, next := right.next.trans left.next, write := right.write.trans left.write
           read := right.read.trans left.read, desc := right.desc.trans left.desc, index := Or.inl (kept.trans unlisted) }
  rw [right.heap, left.heap, Function.update_idem]

theorem replaced_edited (manager : BlockManager) (ref : BlockRef) (blockId : Nat) (times : List Nat) (file : File)
    (positions : List (Nat × Nat × Nat)) :
    Edited manager ((withTemp blockId (manager.dropped ref blockId times) file).replaced ref blockId positions) ref
      ((retained (manager.heap ref) times).reposition positions) := by
  have edited := dropped_edited manager ref blockId times
  have listed : (manager.dropped ref blockId times).blockIndex = manager.blockIndex :=
    (appendLog_memory (times.map .removeRecord) manager blockId).2.2.2
  have remaining : (manager.dropped ref blockId times).heap ref = retained (manager.heap ref) times := by
    rw [edited.heap, Function.update_self]
  generalize manager.dropped ref blockId times = middle at *
  have temp : Edited manager (withTemp blockId middle file) ref (retained (manager.heap ref) times) :=
    { heap := edited.heap, next := edited.next, write := edited.write, read := edited.read, desc := edited.desc
      index := edited.index }
  have moved : Edited (withTemp blockId middle file) ((withTemp blockId middle file).replaced ref blockId positions) ref _ :=
    replaced_memory (withTemp blockId middle file) ref positions
  rw [show (withTemp blockId middle file).heap ref = _ from remaining] at moved
  exact temp.trans moved listed rfl

theorem Steady.run_compacted (steady : manager.Steady) (cached : manager.Cached blockId ref) (times : List Nat)
    (file : File) :
    let block := retained (manager.heap ref) times
    let after := (finalSteps (.ok block.newPositions)).foldl (runRemoval ref blockId)
      (withTemp blockId (manager.dropped ref blockId times) file)
    after.Steady ∧ after.view = Function.update manager.view blockId (some block.compact) ∧
      ∀ other : Nat, after.disk.data[other]? = if other = blockId then some file else manager.disk.data[other]? := by
  intro block after
  have name := steady.named blockId ref cached
  have title : (manager.dropped ref blockId times).heap ref = block := by
    rw [(dropped_edited manager ref blockId times).heap, Function.update_self]
  have final : after = ((withTemp blockId (manager.dropped ref blockId times) file).replaced ref blockId
      block.newPositions).saveMetaOnDisk ref := by
    refine run_replaceSteps _ ref _ ?_
    change ((manager.dropped ref blockId times).heap ref).blockId = blockId
    rw [title, blockId_retained, name]
  have sameData := (dropped_data manager ref blockId times).1
  have compactName : block.compact.blockId = blockId := by rw [Block.compact, blockId_reposition, blockId_retained, name]
  obtain ⟨finalSteady, view⟩ := steady.rewrite cached compactName
    (replaced_edited manager ref blockId times file block.newPositions)
  rw [final]
  refine ⟨finalSteady, view, fun other => ?_⟩
  have stored := replaced_data blockId (manager.dropped ref blockId times) ref block.newPositions file other
  rw [sameData] at stored
  rw [← stored, (saveMeta_memory _ ref).data]

def withoutTemp (manager : BlockManager) (blockId : Nat) : BlockManager :=
  { manager with disk := { manager.disk with temp := manager.disk.temp.erase blockId } }

omit [Codec] in
theorem markBlockCorrupted_data (manager : BlockManager) (blockId : Nat) :
    (manager.markBlockCorrupted blockId).disk.data = manager.disk.data := by
  cases found : manager.disk.desc[blockId]? <;> simp [markBlockCorrupted, removeCached, saveIndex, found]

theorem Steady.run_damaged (steady : manager.Steady) (cached : manager.Cached blockId ref) (times : List Nat)
    (file : File) (failure : ReadFailure) (eof : failure.unexpectedEof = true) :
    let after := (finalSteps (.error failure)).foldl (runRemoval ref blockId)
      (withTemp blockId (manager.dropped ref blockId times) file)
    after.Steady ∧ after.view = Function.update manager.view blockId none ∧ after.disk.data = manager.disk.data := by
  have final : (finalSteps (.error failure)).foldl (runRemoval ref blockId)
      (withTemp blockId (manager.dropped ref blockId times) file) =
        ((withTemp blockId (manager.dropped ref blockId times) file).withoutTemp blockId).markBlockCorrupted blockId := by
    simp [finalSteps, runRemoval, eof, withoutTemp]
  have isolated := steady.isolated_dropped cached times
  have ended : Isolated manager ((withTemp blockId (manager.dropped ref blockId times) file).withoutTemp blockId) blockId :=
    ⟨isolated.heap, isolated.next, isolated.write, isolated.read, isolated.desc, isolated.index⟩
  obtain ⟨finalSteady, view⟩ := (ended.forget_corrupted steady).steady steady
  rw [final]
  refine ⟨finalSteady, view, ?_⟩
  rw [markBlockCorrupted_data]
  exact (dropped_data manager ref blockId times).1

inductive RemovalForm (manager : BlockManager) (ref : BlockRef) (blockId : Nat) (times : List Nat) (file : File) :
    Except ReductError Unit → BlockManager → Prop where
  | emptied (empty : (retained (manager.heap ref) times).recordCount = 0) :
      RemovalForm manager ref blockId times file (.ok ()) ((manager.dropped ref blockId times).removeBlock blockId)
  | compacted (tail : File) (kept : (retained (manager.heap ref) times).recordCount ≠ 0)
      (readable : ∀ record ∈ (retained (manager.heap ref) times).records, Readable file record) :
      RemovalForm manager ref blockId times file (.ok ())
        ((finalSteps (.ok (retained (manager.heap ref) times).newPositions)).foldl (runRemoval ref blockId)
          (withTemp blockId (manager.dropped ref blockId times)
            (Placement.contents (contentsOf file (retained (manager.heap ref) times).records) ++ tail)))
  | damaged (temp : File) (failure : ReadFailure) (eof : failure.unexpectedEof = true)
      (kept : (retained (manager.heap ref) times).recordCount ≠ 0)
      (short : ∃ record ∈ (retained (manager.heap ref) times).records, ¬ Readable file record) :
      RemovalForm manager ref blockId times file (.error failure.failure)
        ((finalSteps (.error failure)).foldl (runRemoval ref blockId)
          (withTemp blockId (manager.dropped ref blockId times) temp))

theorem removal_form (manager : BlockManager) (ref : BlockRef) (times : List Nat) (file : File)
    (name : (manager.heap ref).blockId = blockId) (data : manager.disk.data[blockId]? = some file) :
    RemovalForm manager ref blockId times file (manager.removalResult (retained (manager.heap ref) times))
      ((manager.removalSteps ref times).foldl (runRemoval ref blockId) manager) := by
  have title : (retained (manager.heap ref) times).blockId = blockId := by rw [blockId_retained, name]
  by_cases empty : (retained (manager.heap ref) times).recordCount = 0
  · rw [run_removal_emptied manager ref times empty]
    simp only [removalResult, empty, if_true]
    exact .emptied empty
  by_cases readable : ∀ record ∈ (retained (manager.heap ref) times).records, Readable file record
  · obtain ⟨buffers, copied, bytes⟩ := copyRecords_whole (manager.dataPath blockId) file _ 0 readable
    rw [← data] at copied
    rw [run_removal_copied blockId manager ref times empty buffers _ (title.symm ▸ copied), bytes]
    simp only [removalResult, if_neg empty, title, copied]
    exact .compacted _ empty readable
  · have short : ∃ record ∈ (retained (manager.heap ref) times).records, ¬ Readable file record := by
      simpa using readable
    obtain ⟨buffers, failure, copied, eof⟩ := copyRecords_short (manager.dataPath blockId) file _ 0 short
    rw [← data] at copied
    rw [run_removal_copied blockId manager ref times empty buffers _ (title.symm ▸ copied)]
    simp only [removalResult, if_neg empty, title, copied]
    exact .damaged _ failure eof empty short

theorem Steady.run_removal (steady : manager.Steady) (cached : manager.Cached blockId ref) (times : List Nat)
    (file : File) (data : manager.disk.data[blockId]? = some file) :
    let after := (manager.removalSteps ref times).foldl (runRemoval ref blockId) manager
    after.Steady ∧ (∀ other : Nat, other ≠ blockId → after.disk.data[other]? = manager.disk.data[other]?) ∧
      RemovalOutcome manager blockId (retained (manager.heap ref) times) file
        (manager.removalResult (retained (manager.heap ref) times)) after := by
  intro after
  have form := removal_form manager ref times file (steady.named blockId ref cached) data
  change RemovalForm _ _ _ _ _ _ after at form
  generalize manager.removalResult (retained (manager.heap ref) times) = reply at form
  generalize after = final at form
  cases form with
  | emptied empty =>
    obtain ⟨finalSteady, view⟩ := (steady.isolated_dropped cached times).forget_removed.steady steady
    refine ⟨finalSteady, fun other different => ?_, .emptied empty view⟩
    simp [removeBlock, walRemove, removeCached, saveIndex, removeBlockFiles, walAppend, different,
      (dropped_data manager ref blockId times).1]
  | compacted tail kept readable =>
    obtain ⟨finalSteady, view, stored⟩ := steady.run_compacted cached times
      (Placement.contents (contentsOf file (retained (manager.heap ref) times).records) ++ tail)
    exact ⟨finalSteady, fun other different => (stored other).trans (if_neg different),
      .compacted tail kept readable view ((stored blockId).trans (if_pos rfl))⟩
  | damaged temp failure eof kept short =>
    obtain ⟨finalSteady, view, same⟩ := steady.run_damaged cached times temp failure eof
    exact ⟨finalSteady, fun other _ => by rw [same], .damaged kept short view⟩

end Outcomes

end ReductStore.BlockManager
