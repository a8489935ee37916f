import ReductStore.Storage.Retention
import ReductStore.Storage.Partition
import ReductStore.Condition.Integer

set_option autoImplicit false

namespace ReductStore

open Std TreeMap

structure EntryInfo where
  size : Nat
  recordCount : Nat
  blockCount : Nat
  oldestRecord : Nat
  latestRecord : Nat
  deriving DecidableEq

namespace BlockManager

def info (manager : BlockManager) : EntryInfo :=
  let index := manager.blockIndex
  let activeTree := index.activeTree
  { size := sumBy (fun entry => entry.size + entry.metadataSize) index
    recordCount := sumBy BlockEntry.recordCount index
    blockCount := index.keys.length
    oldestRecord := (activeTree.findSome? fun blockId =>
      index[blockId]?.bind fun entry => if entry.recordCount > 0 then some blockId else none).getD 0
    latestRecord := (activeTree.reverse.findSome? fun blockId =>
      index[blockId]?.bind fun entry => if entry.recordCount > 0 then some entry.latestRecordTime else none).getD 0 }

def getQueryTimeRange (build : Condition.Build) (info : EntryInfo) (start stop : Option Nat) (continuous : Bool) :
    Option (Except ReductError (Nat × Nat)) :=
  let start := start.getD info.oldestRecord
  let stop := match stop with
    | some stop => some stop
    | none =>
      if build = Condition.Build.debug ∧ 2 ^ 64 ≤ info.latestRecord + 1 then none else some ((info.latestRecord + 1) % 2 ^ 64)
  stop.map fun stop =>
    if start > stop ∧ continuous = false then .error (unprocessableEntity "Start time must be before stop time")
    else .ok (start, stop)

end BlockManager

theorem Block.latestRecordTime_congr {first second : Block} (same : first.times = second.times) :
    first.latestRecordTime = second.latestRecordTime := by
  have occupied : first.Occupied ↔ second.Occupied := exists_congr fun time => Set.ext_iff.mp same time
  by_cases inhabited : first.Occupied
  · have latest : first.latestRecordTime ∈ second.times := same ▸ Block.latestRecordTime_present inhabited
    have latest' : second.latestRecordTime ∈ first.times := same ▸ Block.latestRecordTime_present (occupied.mp inhabited)
    obtain ⟨record, found⟩ := latest
    obtain ⟨record', found'⟩ := latest'
    exact Nat.le_antisymm (Block.le_latestRecordTime found) (Block.le_latestRecordTime found')
  · have none (block : Block) (empty : ¬ block.Occupied) : block.latestRecordTime = 0 := by
      have last : lastKey block.recordIndex = none := by
        rw [lastKey_none]
        intro time
        by_contra present
        obtain ⟨record, found⟩ := Option.ne_none_iff_exists'.mp present
        exact empty ⟨time, record, found⟩
      rw [Block.latestRecordTime, last, Option.getD_none]
    rw [none first inhabited, none second (mt occupied.mpr inhabited)]

structure BlockEntry.Describes (entry : BlockEntry) (block : Block) : Prop where
  count : entry.recordCount = block.recordCount
  latest : entry.latestRecordTime = block.latestRecordTime
  sound : entry.corrupted ≠ some true

namespace BlockManager

variable [Codec]

def Current (manager : BlockManager) : Prop :=
  ∀ (blockId : Nat) (entry : BlockEntry), manager.blockIndex[blockId]? = some entry →
    ∃ block, manager.view blockId = some block ∧ entry.Describes block

section Index

variable {manager : BlockManager} {ref : BlockRef} {blockId : Nat} {entry : BlockEntry}

omit [Codec] in
theorem describes_ofBlock (block : Block) : (BlockEntry.ofBlock block).Describes block :=
  ⟨rfl, rfl, by simp [BlockEntry.ofBlock]⟩

theorem saveMeta_entry (found : (manager.saveMetaOnDisk ref).blockIndex[blockId]? = some entry) :
    (manager.heap ref).blockId ≠ blockId ∧ manager.blockIndex[blockId]? = some entry ∨
      (manager.heap ref).blockId = blockId ∧ entry.Describes (manager.heap ref) := by
  by_cases same : (manager.heap ref).blockId = blockId
  · subst same
    right
    have title : (manager.snapshot ref).beginTime = (manager.heap ref).blockId := rfl
    simp only [saveMetaOnDisk, walRemove, saveIndex, indexDescriptor, writeDescriptor, BlockIndex.insertOrUpdateWithCrc,
      BlockIndex.insertOrUpdate, BlockEntry.ofProto, title, get_insert, if_true, Option.some.injEq] at found
    subst found
    exact ⟨rfl, rfl, rfl, by simp [snapshot]⟩
  · rw [(saveMeta_untouched manager ref blockId same).2.2] at found
    exact Or.inl ⟨same, found⟩

theorem saveMetas_entry (refs : List BlockRef) (found : (manager.saveMetas refs).blockIndex[blockId]? = some entry) :
    manager.blockIndex[blockId]? = some entry ∨
      ∃ other ∈ refs, (manager.heap other).blockId = blockId ∧ entry.Describes (manager.heap other) := by
  induction refs generalizing manager with
  | nil => exact Or.inl found
  | cons first rest ih =>
    rcases ih found with before | ⟨other, member, title, describes⟩
    · rcases saveMeta_entry before with ⟨-, old⟩ | ⟨title, describes⟩
      · exact Or.inl old
      · exact Or.inr ⟨first, List.mem_cons_self, title, describes⟩
    · exact Or.inr ⟨other, List.mem_cons_of_mem _ member, title, describes⟩

theorem saveBlock_entry (found : (manager.saveBlock ref).blockIndex[blockId]? = some entry) :
    manager.blockIndex[blockId]? = some entry ∨
      ∃ other, (other = ref ∨ ∃ cachedId : Nat, cachedId ≠ (manager.heap ref).blockId ∧
          manager.writeCache[cachedId]? = some other) ∧
        (manager.heap other).blockId = blockId ∧ entry.Describes (manager.heap other) := by
  rcases saveMetas_entry _ found with old | ⟨other, member, title, describes⟩
  · exact Or.inl old
  · refine Or.inr ⟨other, ?_, title, describes⟩
    obtain ⟨cachedId, -, present⟩ := List.mem_filterMap.mp member
    rw [get_insert] at present
    split_ifs at present with same
    · exact Or.inl (Option.some.inj present).symm
    · exact Or.inr ⟨cachedId, same, present⟩

end Index

section Steps

variable {before after : BlockManager}

theorem Current.saveMeta (current : before.Current) (steady : before.Steady) {blockId : Nat} {ref : BlockRef}
    (cached : before.Cached blockId ref) : (before.saveMetaOnDisk ref).Current := by
  intro other entry found
  rw [(steady.saveMeta cached).2]
  rcases saveMeta_entry found with ⟨-, old⟩ | ⟨title, describes⟩
  · exact current other entry old
  · obtain rfl : blockId = other := (steady.named blockId ref cached).symm.trans title
    exact ⟨_, steady.cached_view cached, describes⟩

theorem Current.saveBlock (current : before.Current) (steady : before.Steady) {changed : BlockManager} {ref : BlockRef}
    {target : Nat} {block : Block} (content : changed.heap ref = block) (name : block.blockId = target)
    (others : ∀ other, other ≠ ref → (∃ cachedId : Nat, before.writeCache[cachedId]? = some other) →
      changed.heap other = before.heap other)
    (write : changed.writeCache = before.writeCache)
    (index : ∀ (blockId : Nat) (entry : BlockEntry), changed.blockIndex[blockId]? = some entry →
      blockId = target ∧ entry.Describes block ∨ blockId ≠ target ∧ before.blockIndex[blockId]? = some entry)
    (view : (changed.saveBlock ref).view = Function.update before.view target (some block)) :
    (changed.saveBlock ref).Current := by
  have at_target {entry : BlockEntry} (describes : entry.Describes block) :
      ∃ seen, (changed.saveBlock ref).view target = some seen ∧ entry.Describes seen :=
    ⟨block, by rw [view, Function.update_self], describes⟩
  intro blockId entry found
  rcases saveBlock_entry found with old | ⟨other, present, title, describes⟩
  · rcases index blockId entry old with ⟨rfl, describes⟩ | ⟨different, old⟩
    · exact at_target describes
    · rw [view, Function.update_of_ne different]
      exact current blockId entry old
  · by_cases same : other = ref
    · subst same
      rw [content] at title describes
      obtain rfl : target = blockId := name.symm.trans title
      exact at_target describes
    · obtain ⟨cachedId, apart, cached⟩ := present.resolve_left same
      rw [content, name] at apart
      rw [write] at cached
      rw [others other same ⟨cachedId, cached⟩] at title describes
      obtain rfl : cachedId = blockId := (steady.named cachedId other (Or.inl cached)).symm.trans title
      rw [view, Function.update_of_ne apart]
      exact ⟨_, steady.cached_view (Or.inl cached), describes⟩

theorem Current.commit (current : before.Current) (steady : before.Steady) {blockId : Nat} {ref : BlockRef}
    (cached : before.Cached blockId ref) (block : Block) (name : block.blockId = blockId) (entries : List WalEntry)
    (indexed : Bool) (same : indexed = false →
      block.recordCount = (before.heap ref).recordCount ∧ block.latestRecordTime = (before.heap ref).latestRecordTime) :
    (before.commit ref block entries indexed).Current := by
  have edited := committing_edited before ref block entries indexed
  have heap : ∀ other, other ≠ ref → (before.committing ref block entries indexed).heap other = before.heap other :=
    fun other different => by rw [edited.heap, Function.update_of_ne different]
  refine current.saveBlock steady (by rw [edited.heap, Function.update_self]) name
    (fun other different _ => heap other different) edited.write ?_ (steady.commit cached name edited).2.2
  · have index : (before.committing ref block entries indexed).blockIndex =
        if indexed then (before.indexBlock block).blockIndex else before.blockIndex := by
      have kept := (appendLog_memory entries before block.blockId).2.2.2
      cases indexed with
      | false => exact kept
      | true => simp [committing, indexBlock, setBlock, kept]
    intro other entry found
    rw [index] at found
    cases indexed with
    | true =>
      simp only [if_true, indexBlock, BlockIndex.insertOrUpdate, get_insert] at found
      split_ifs at found with target
      · obtain rfl := Option.some.inj found
        exact Or.inl ⟨target.trans name, describes_ofBlock block⟩
      · exact Or.inr ⟨fun equal => target (equal.trans name.symm), found⟩
    | false =>
      simp only [Bool.false_eq_true, if_false] at found
      by_cases target : other = blockId
      · subst target
        obtain ⟨seen, isSeen, describes⟩ := current other entry found
        obtain rfl := Option.some.inj ((steady.cached_view cached).symm.trans isSeen)
        obtain ⟨counts, latest⟩ := same rfl
        exact Or.inl ⟨rfl, describes.count.trans counts.symm, describes.latest.trans latest.symm, describes.sound⟩
      · exact Or.inr ⟨target, found⟩

theorem Current.start (current : before.Current) (steady : before.Steady) (blockId maxBlockSize : Nat)
    (uncached : before.readCache[blockId]? = none) : (before.startNewBlock blockId maxBlockSize).2.Current := by
  have view := (steady.start blockId maxBlockSize uncached).2.2
  rw [startNewBlock_eq] at view ⊢
  refine current.saveBlock steady (opened_heap before blockId maxBlockSize) (Block.blockId_new blockId) ?_ rfl ?_ view
  · rintro other different ⟨cachedId, present⟩
    simp [opened, allocate, setBlock, indexBlock, modifyData, different]
  · intro other entry found
    simp only [opened, allocate, setBlock, indexBlock, modifyData, BlockIndex.insertOrUpdate, get_insert] at found
    split_ifs at found with target
    · obtain rfl := Option.some.inj found
      exact Or.inl ⟨target, describes_ofBlock (Block.new blockId)⟩
    · exact Or.inr ⟨target, found⟩

theorem Current.writerStep (current : before.Current) (steady : before.Steady) (step : WriterStep before after) :
    after.Current := by
  cases step with
  | load loaded =>
    intro blockId entry found
    rw [loaded.index] at found
    rw [loaded.view steady]
    exact current blockId entry found
  | start blockId maxBlockSize uncached _ => exact current.start steady blockId maxBlockSize uncached
  | @finish blockId ref cached =>
    obtain ⟨resized, same⟩ := steady.modifyData (before.heap ref).blockId (File.setLen · (before.heap ref).size)
    have still : (before.modifyData (before.heap ref).blockId (File.setLen · (before.heap ref).size)).Current := by
      intro other entry found
      rw [same]
      exact current other entry found
    exact still.saveMeta resized (show (before.modifyData _ _).Cached blockId ref from cached)
  | save cached => exact current.saveMeta steady cached
  | begin cached name record _ _ =>
    exact current.commit steady cached _ ((Block.blockId_insertOrUpdate _ record).trans name) [] true (by simp)
  | conclude cached name time state record found =>
    exact current.commit steady cached _ ((Block.blockId_modifyRecord ..).trans name) _ false fun _ =>
      ⟨Block.recordCount_modifyRecord .., Block.latestRecordTime_congr (Block.times_modifyRecord ..)⟩
  | write blockId change =>
    intro other entry found
    rw [(steady.modifyData blockId change).2]
    exact current other entry found

theorem Current.writerRun (current : before.Current) (sound : before.Sound) (run : WriterRun before after) :
    after.Current := by
  induction run with
  | refl => exact current
  | tail earlier step ih => exact ih.writerStep ((WriterRun.reaches earlier).sound sound).toSteady step

theorem Current.rewrite (current : before.Current) (steady : before.Steady) {changed : BlockManager} {blockId : Nat}
    {ref : BlockRef} (cached : before.Cached blockId ref) {block : Block} (name : block.blockId = blockId)
    (edited : Edited before changed ref block) (index : changed.blockIndex = before.blockIndex) :
    (changed.saveMetaOnDisk ref).Current := by
  have content : changed.heap ref = block := by rw [edited.heap, Function.update_self]
  intro other entry found
  rw [(steady.rewrite cached name edited).2]
  rcases saveMeta_entry found with ⟨apart, old⟩ | ⟨title, describes⟩
  · rw [content, name] at apart
    rw [index] at old
    rw [Function.update_of_ne apart.symm]
    exact current other entry old
  · rw [content] at title describes
    obtain rfl : blockId = other := name.symm.trans title
    exact ⟨block, Function.update_self .., describes⟩

omit [Codec] in
theorem Current.forget (current : before.Current) {blockId : Nat}
    (index : ∀ other : Nat, after.blockIndex[other]? = if other = blockId then none else before.blockIndex[other]?)
    (view : after.view = Function.update before.view blockId none) : after.Current := by
  intro other entry found
  rw [index] at found
  split_ifs at found with same
  rw [view, Function.update_of_ne same]
  exact current other entry found

end Steps

section Removal

variable {manager : BlockManager}

omit [Codec] in
theorem times_compact (block : Block) : block.compact.times = block.times := by
  ext time
  constructor
  · rintro ⟨record, found⟩
    obtain ⟨old, -, -, present, -⟩ := (Block.getRecord_compact block time record).mp found
    exact ⟨old, present⟩
  · rintro ⟨record, found⟩
    obtain ⟨first, last, placed⟩ := Block.newPositions_present block time record found
    exact ⟨_, (Block.getRecord_compact block time _).mpr ⟨record, first, last, found, placed, rfl⟩⟩

theorem times_retained (block : Block) (times : List Nat) :
    (retained block times).times = { time ∈ block.times | time ∉ times } := by
  ext time
  by_cases removed : time ∈ times <;> simp [Block.times, removed]

theorem dropped_index (manager : BlockManager) (ref : BlockRef) (blockId : Nat) (times : List Nat) :
    (manager.dropped ref blockId times).blockIndex = manager.blockIndex :=
  (appendLog_memory (times.map .removeRecord) manager blockId).2.2.2

theorem Current.run_emptied (current : manager.Current) (steady : manager.Steady) {blockId : Nat} {ref : BlockRef}
    (cached : manager.Cached blockId ref) (times : List Nat) :
    ((manager.dropped ref blockId times).removeBlock blockId).Current ∧
      ((manager.dropped ref blockId times).removeBlock blockId).view = Function.update manager.view blockId none := by
  have view := ((steady.isolated_dropped cached times).forget_removed.steady steady).2
  have index := dropped_index manager ref blockId times
  refine ⟨current.forget (fun other => ?_) view, view⟩
  simp only [removeBlock, walRemove, removeCached, saveIndex, removeBlockFiles, walAppend, get_erase, index]

theorem Current.run_compacted (current : manager.Current) (steady : manager.Steady) {blockId : Nat} {ref : BlockRef}
    (cached : manager.Cached blockId ref) (times : List Nat) (file : File) :
    ((finalSteps (.ok (retained (manager.heap ref) times).newPositions)).foldl (runRemoval ref blockId)
      (withTemp blockId (manager.dropped ref blockId times) file)).Current := by
  have name := steady.named blockId ref cached
  have dropped : (manager.dropped ref blockId times).heap ref = retained (manager.heap ref) times := by
    rw [(dropped_edited manager ref blockId times).heap, Function.update_self]
  have compactName : (retained (manager.heap ref) times).compact.blockId = blockId := by
    rw [Block.compact, blockId_reposition, blockId_retained, name]
  have final : (finalSteps (.ok (retained (manager.heap ref) times).newPositions)).foldl (runRemoval ref blockId)
      (withTemp blockId (manager.dropped ref blockId times) file) =
        ((withTemp blockId (manager.dropped ref blockId times) file).replaced ref blockId
          (retained (manager.heap ref) times).newPositions).saveMetaOnDisk ref := by
    refine run_replaceSteps _ ref _ ?_
    change ((manager.dropped ref blockId times).heap ref).blockId = blockId
    rw [dropped, blockId_retained, name]
  have edited := replaced_edited manager ref blockId times file (retained (manager.heap ref) times).newPositions
  have index := dropped_index manager ref blockId times
  rw [final]
  generalize manager.dropped ref blockId times = middle at edited index
  exact current.rewrite steady cached compactName edited index

theorem removeRecords_effect (stocked : manager.Stocked) (current : manager.Current) {blockId : Nat} {times : List Nat}
    {block : Block} (seen : manager.view blockId = some block) (fine : (manager.removeRecords blockId times).1 = .ok ()) :
    (manager.removeRecords blockId times).2.Current ∧
      ((manager.removeRecords blockId times).2.view = Function.update manager.view blockId none ∧
          (∀ time ∈ block.times, time ∈ times) ∨
        ∃ left, (manager.removeRecords blockId times).2.view = Function.update manager.view blockId (some left) ∧
          left.times = { time ∈ block.times | time ∉ times } ∧ left.Occupied) := by
  have served := ((stocked.toSteady.view_iff blockId block).mp seen).1
  obtain ⟨ref, middle, result, loaded⟩ := stocked.toSteady.load blockId served
  have quiet := loaded.quiet stocked.toSteady
  have middleStocked := stocked.same quiet.run quiet.view
  have middleCurrent := current.writerStep stocked.toSteady (.load loaded)
  have content : middle.heap ref = block := by
    have view := middleStocked.toSteady.cached_view loaded.cached
    rwa [quiet.view, seen, Option.some.injEq, eq_comm] at view
  obtain ⟨file, data⟩ := middleStocked.present blockId (middleStocked.served blockId ref loaded.cached)
  have form := removal_form middle ref times file loaded.name data
  have accounted := accounted_retained times (stocked.accounted blockId block seen)
  simp only [BlockManager.removeRecords, result] at fine ⊢
  generalize middle.removalResult (retained (middle.heap ref) times) = reply at form fine
  generalize (middle.removalSteps ref times).foldl (runRemoval ref blockId) middle = final at form ⊢
  rw [← quiet.view]
  cases form with
  | emptied empty =>
    rw [content] at empty
    obtain ⟨finalCurrent, view⟩ := middleCurrent.run_emptied middleStocked.toSteady loaded.cached times
    refine ⟨finalCurrent, Or.inl ⟨view, fun time held => ?_⟩⟩
    by_contra kept
    obtain ⟨record, found⟩ := held
    exact accounted.occupied.mp ⟨time, record, by simp [kept, found]⟩ empty
  | compacted tail kept readable =>
    rw [content] at kept
    have view := (middleStocked.toSteady.run_compacted loaded.cached times
      (Placement.contents (contentsOf file (retained (middle.heap ref) times).records) ++ tail)).2.1
    have held : (retained block times).compact.times = { time ∈ block.times | time ∉ times } := by
      rw [times_compact, times_retained]
    refine ⟨middleCurrent.run_compacted middleStocked.toSteady loaded.cached times _, Or.inr ⟨_, view, ?_, ?_⟩⟩
    · rw [content, held]
    · obtain ⟨time, record, found⟩ := accounted.occupied.mpr kept
      have member : time ∈ (retained block times).compact.times := by
        rw [times_compact]
        exact ⟨record, found⟩
      rw [content]
      exact ⟨time, member⟩
  | damaged temp failure eof kept short => cases fine

end Removal

section Figures

def storedRecords (manager : BlockManager) : List Record :=
  manager.blockIndex.activeTree.flatMap fun blockId => ((manager.view blockId).map Block.records).getD []

def storedTimes (manager : BlockManager) : Set Nat := { time | ∃ record ∈ manager.storedRecords, record.timestamp = time }

structure Tidy (manager : BlockManager) : Prop extends Stocked manager where
  partitioned : Partitioned manager.cells
  current : manager.Current
  rooted : ∀ (blockId : Nat) (held : Set Nat), manager.cells blockId = some held → blockId ∈ held
  bounded : ∀ (blockId : Nat) (held : Set Nat), manager.cells blockId = some held → ∀ time ∈ held, time + 1 < 2 ^ 64

variable {manager : BlockManager}

theorem Tidy.entry (tidy : manager.Tidy) {blockId : Nat} (served : manager.InService blockId) :
    ∃ entry block, manager.blockIndex[blockId]? = some entry ∧ manager.view blockId = some block ∧
      entry.Describes block ∧ 0 < entry.recordCount := by
  obtain ⟨entry, listed, -⟩ := (BlockIndex.mem_activeTree _ _).mp served
  obtain ⟨block, seen, describes⟩ := tidy.current blockId entry listed
  refine ⟨entry, block, listed, seen, describes, ?_⟩
  have filled := tidy.filled blockId block seen
  have counted := filled.toAccounted.occupied.mp filled.occupied
  have := describes.count
  omega

theorem mem_storedTimes (steady : manager.Steady) (time : Nat) :
    time ∈ manager.storedTimes ↔ ∃ blockId block, manager.view blockId = some block ∧ time ∈ block.times := by
  constructor
  · rintro ⟨record, stored, rfl⟩
    obtain ⟨blockId, -, member⟩ := List.mem_flatMap.mp stored
    cases seen : manager.view blockId with
    | none => simp [seen] at member
    | some block =>
      rw [seen, Option.map_some, Option.getD_some] at member
      exact ⟨blockId, block, seen, record, (Block.mem_records block record).mp member⟩
  · rintro ⟨blockId, block, seen, record, found⟩
    have stamped := Block.getRecord_timestamp found
    refine ⟨record, List.mem_flatMap.mpr ⟨blockId, ((steady.view_iff blockId block).mp seen).1, ?_⟩, stamped⟩
    rw [seen, Option.map_some, Option.getD_some, Block.mem_records, stamped]
    exact found

theorem Tidy.recordCount (tidy : manager.Tidy) : manager.info.recordCount = manager.storedRecords.length := by
  have sound : ∀ blockId ∈ manager.blockIndex.keys, !manager.blockIndex.isCorrupted blockId := by
    intro blockId listed
    obtain ⟨entry, found⟩ := (mem_keys_iff _ _).mp listed
    obtain ⟨block, -, describes⟩ := tidy.current blockId entry found
    have := describes.sound
    simpa [BlockIndex.isCorrupted, found] using this
  have all : manager.blockIndex.activeTree = manager.blockIndex.toList.map Prod.fst := by
    rw [BlockIndex.activeTree, List.filter_eq_self.mpr sound, ExtTreeMap.map_fst_toList_eq_keys]
  rw [storedRecords, all, List.length_flatMap, List.map_map]
  refine congrArg List.sum (List.map_congr_left fun listed member => ?_)
  obtain ⟨block, seen, describes⟩ := tidy.current listed.1 listed.2 ((mem_toList _ _).mp member)
  have counted := (tidy.accounted listed.1 block seen).count
  simp only [Function.comp_apply, seen, Option.map_some, Option.getD_some, Block.records, List.length_map,
    ExtTreeMap.length_toList]
  exact describes.count.trans counted

theorem Tidy.oldestRecord (tidy : manager.Tidy) (stored : manager.storedRecords ≠ []) :
    IsLeast manager.storedTimes manager.info.oldestRecord := by
  have sorted : manager.blockIndex.activeTree.Pairwise (· < ·) := (keys_sorted _).filter _
  have served (blockId : Nat) : manager.InService blockId ↔ blockId ∈ manager.blockIndex.activeTree := Iff.rfl
  cases order : manager.blockIndex.activeTree with
  | nil => exact absurd (by simp [storedRecords, order]) stored
  | cons first rest =>
    rw [order] at sorted
    have inFirst : manager.InService first := (served first).mpr (by simp [order])
    obtain ⟨entry, block, listed, seen, -, counted⟩ := tidy.entry inFirst
    have oldest : manager.info.oldestRecord = first := by
      simp [BlockManager.info, order, listed, counted]
    rw [oldest]
    refine ⟨(mem_storedTimes tidy.toSteady first).mpr ⟨first, block, seen, ?_⟩, ?_⟩
    · exact tidy.rooted first block.times (by simp [cells, seen])
    · intro time held
      obtain ⟨blockId, other, found, member⟩ := (mem_storedTimes tidy.toSteady time).mp held
      have above := tidy.partitioned.above blockId other.times time (by simp [cells, found]) member
      have inService := (served blockId).mp ((tidy.toSteady.view_iff blockId other).mp found).1
      rw [order] at inService
      rcases List.mem_cons.mp inService with rfl | later
      · exact above
      · exact ((List.pairwise_cons.mp sorted).1 blockId later).le.trans above

theorem Tidy.latestRecord (tidy : manager.Tidy) (stored : manager.storedRecords ≠ []) :
    IsGreatest manager.storedTimes manager.info.latestRecord := by
  have sorted : manager.blockIndex.activeTree.Pairwise (· < ·) := (keys_sorted _).filter _
  have served (blockId : Nat) : manager.InService blockId ↔ blockId ∈ manager.blockIndex.activeTree := Iff.rfl
  rcases List.eq_nil_or_concat manager.blockIndex.activeTree with order | ⟨init, last, order⟩
  · exact absurd (by simp [storedRecords, order]) stored
  · rw [List.concat_eq_append] at order
    rw [order] at sorted
    have inLast : manager.InService last := (served last).mpr (by simp [order])
    obtain ⟨entry, block, listed, seen, describes, counted⟩ := tidy.entry inLast
    have latest : manager.info.latestRecord = block.latestRecordTime := by
      simp [BlockManager.info, order, listed, counted, describes.latest]
    have held : block.latestRecordTime ∈ block.times :=
      Block.latestRecordTime_present (tidy.filled last block seen).occupied
    have cell : manager.cells last = some block.times := by simp [cells, seen]
    rw [latest]
    refine ⟨(mem_storedTimes tidy.toSteady _).mpr ⟨last, block, seen, held⟩, ?_⟩
    intro time stored
    obtain ⟨blockId, other, found, member⟩ := (mem_storedTimes tidy.toSteady time).mp stored
    have inService := (served blockId).mp ((tidy.toSteady.view_iff blockId other).mp found).1
    rw [order] at inService
    rcases List.mem_append.mp inService with earlier | equal
    · -- all records of an earlier block lie before the id of the last one
      have before := (List.pairwise_append.mp sorted).2.2 blockId earlier last (by simp)
      have below := tidy.partitioned.below blockId last other.times block.times time (by simp [cells, found]) cell member
        before
      exact below.le.trans (tidy.partitioned.above last block.times _ cell held)
    · obtain rfl := List.mem_singleton.mp equal
      obtain rfl := Option.some.inj (seen.symm.trans found)
      obtain ⟨record, present⟩ := member
      exact Block.le_latestRecordTime present

theorem Tidy.empty_info (tidy : manager.Tidy) (empty : manager.storedRecords = []) :
    manager.info.oldestRecord = 0 ∧ manager.info.latestRecord = 0 := by
  have unserved : manager.blockIndex.activeTree = [] := by
    refine List.eq_nil_iff_forall_not_mem.mpr fun blockId served => ?_
    obtain ⟨-, block, -, seen, -, -⟩ := tidy.entry served
    obtain ⟨time, held⟩ := (tidy.filled blockId block seen).occupied
    obtain ⟨record, member, -⟩ := (mem_storedTimes tidy.toSteady time).mpr ⟨blockId, block, seen, held⟩
    simp [empty] at member
  simp [BlockManager.info, unserved]

theorem Tidy.queryTimeRange (tidy : manager.Tidy) (build : Condition.Build) (continuous : Bool) :
    ∃ start stop, getQueryTimeRange build manager.info none none continuous = some (.ok (start, stop)) ∧
      ∀ record ∈ manager.storedRecords, start ≤ record.timestamp ∧ record.timestamp < stop := by
  refine ⟨manager.info.oldestRecord, manager.info.latestRecord + 1, ?_, ?_⟩
  · have room : manager.info.latestRecord + 1 < 2 ^ 64 ∧ manager.info.oldestRecord ≤ manager.info.latestRecord := by
      by_cases empty : manager.storedRecords = []
      · simp [tidy.empty_info empty]
      · obtain ⟨held, -⟩ := tidy.latestRecord empty
        refine ⟨?_, (tidy.oldestRecord empty).2 held⟩
        obtain ⟨blockId, block, seen, member⟩ := (mem_storedTimes tidy.toSteady _).mp held
        exact tidy.bounded blockId block.times (by simp [cells, seen]) _ member
    have fits : (manager.info.latestRecord + 1) % 2 ^ 64 = manager.info.latestRecord + 1 := Nat.mod_eq_of_lt room.1
    have noTrap : ¬ (build = Condition.Build.debug ∧ 2 ^ 64 ≤ manager.info.latestRecord + 1) := by omega
    have inOrder : ¬ (manager.info.oldestRecord > manager.info.latestRecord + 1 ∧ continuous = false) := by omega
    simp only [getQueryTimeRange, Option.getD_none, if_neg noTrap, fits, Option.map_some, if_neg inOrder]
  · intro record stored
    have some : manager.storedRecords ≠ [] := List.ne_nil_of_mem stored
    have held : record.timestamp ∈ manager.storedTimes := ⟨record, stored, rfl⟩
    have := (tidy.oldestRecord some).2 held
    have := (tidy.latestRecord some).2 held
    omega

end Figures

section Runs

inductive EntryStep where
  | write (delivery : Delivery)
  | remove (blockId : Nat) (times : List Nat)

def takeStep (manager : BlockManager) : EntryStep → BlockManager
  | .write delivery => (manager.writeRecord delivery.call (contentOf delivery.chunks)).2
  | .remove blockId times => (manager.removeRecords blockId times).2

def Completes (manager : BlockManager) : EntryStep → Prop
  | .write delivery => delivery.Exact
  | .remove blockId times => manager.InService blockId ∧ (manager.removeRecords blockId times).1 = .ok ()

/-- No block is started in the midst of another one, no timestamp is the last of its type, and a block loses the record
that it is named for only with all the others. -/
def KeepsOrder (manager : BlockManager) : EntryStep → Prop
  | .write delivery => manager.splits delivery.call = false ∧ delivery.call.time + 1 < 2 ^ 64
  | .remove blockId times => blockId ∈ times → ∀ block ∈ manager.view blockId, ∀ record ∈ block.records,
      record.timestamp ∈ times

variable {manager after : BlockManager}

omit [Codec] in
theorem cells_congr (view : after.view = manager.view) : after.cells = manager.cells := by
  funext blockId
  rw [cells, cells, view]

theorem Outcome.cells {call : WriteCall} {result : Except ReductError WriteContext}
    (outcome : Outcome manager call result after) :
    after.cells = manager.cells ∨ ∃ blockId held,
      after.cells = Function.update manager.cells blockId (some (insert call.time held)) ∧
      (manager.cells blockId = some held ∨ blockId = call.time ∧ held = ∅) := by
  have prepared (block : Block) : (prepared block call).times = insert call.time block.times := by
    simp [Block.prepareForWriting, Block.startedRecord]
  cases outcome with
  | fresh absent cause view =>
    refine Or.inr ⟨call.time, ∅, ?_, Or.inr ⟨rfl, rfl⟩⟩
    rw [cells_update view, prepared, Block.times_new]
  | @within _ blockId block selects room view =>
    refine Or.inr ⟨blockId, block.times, ?_, Or.inl (by simp [BlockManager.cells, selects.seen])⟩
    rw [cells_update view, prepared]
  | @overwrite _ blockId block record covers seen found replaceable view =>
    refine Or.inr ⟨blockId, block.times, ?_, Or.inl (by simp [BlockManager.cells, seen])⟩
    have stamped := Block.getRecord_timestamp found
    rw [cells_update view, Block.times_insertOrUpdate, show (record.overwritten call).timestamp = call.time from stamped]
  | refused covers seen found taken view => exact Or.inl (cells_congr view)

theorem Tidy.writeRecord (tidy : manager.Tidy) {call : WriteCall} (messages : List WriteChunk)
    (whole : manager.splits call = false) (small : call.time + 1 < 2 ^ 64) :
    (manager.writeRecord call messages).2.Tidy := by
  have written := beginWrite_written tidy.toSound call (not_displaces tidy.toSound tidy.partitioned whole)
  have middleTidy : (manager.beginWrite call).2.Tidy := by
    have places := written.outcome.cells
    refine { tidy.toStocked.written written with
             partitioned := written.outcome.partitioned tidy.toSound tidy.partitioned whole
             current := tidy.current.writerRun tidy.toSound written.steps, rooted := ?_, bounded := ?_ }
    · intro blockId held cell
      rcases places with same | ⟨target, old, changed, source⟩
      · exact tidy.rooted blockId held (same ▸ cell)
      · rw [changed] at cell
        by_cases equal : blockId = target
        · subst equal
          rw [Function.update_self, Option.some.injEq] at cell
          subst cell
          rcases source with before | ⟨named, -⟩
          · exact Or.inr (tidy.rooted blockId old before)
          · exact Or.inl named
        · rw [Function.update_of_ne equal] at cell
          exact tidy.rooted blockId held cell
    · intro blockId held cell time member
      rcases places with same | ⟨target, old, changed, source⟩
      · exact tidy.bounded blockId held (same ▸ cell) time member
      · rw [changed] at cell
        by_cases equal : blockId = target
        · subst equal
          rw [Function.update_self, Option.some.injEq] at cell
          subst cell
          rcases member with rfl | present
          · exact small
          · rcases source with before | ⟨-, empty⟩
            · exact tidy.bounded blockId old before time present
            · simp [empty] at present
        · rw [Function.update_of_ne equal] at cell
          exact tidy.bounded blockId held cell time member
  rcases reply : manager.beginWrite call with ⟨result, middle⟩
  rw [reply] at written middleTidy
  cases result with
  | error failure => simpa only [BlockManager.writeRecord, reply] using middleTidy
  | ok context =>
    obtain ⟨block, opened⟩ := written.outcome.opened tidy.toSteady
    obtain ⟨record, held, -⟩ := opened.held
    have seen : middle.view context.blockId = some block := by
      rw [show middle.view = _ from opened.view, Function.update_self]
    obtain ⟨run, -, view⟩ := middleTidy.toSound.runWriter context messages seen (by rw [opened.time]; exact held)
    have same : (middle.runWriter context messages).2.cells = middle.cells := by
      rw [cells_update view, Block.times_modifyRecord]
      exact Function.update_eq_self_iff.mpr (by simp [BlockManager.cells, seen])
    simp only [BlockManager.writeRecord, reply]
    have served := ((middleTidy.toSteady.view_iff _ block).mp seen).1
    exact { middleTidy.toStocked.runWriter context messages served with
            partitioned := same ▸ middleTidy.partitioned
            current := middleTidy.current.writerRun middleTidy.toSound run
            rooted := same ▸ middleTidy.rooted
            bounded := same ▸ middleTidy.bounded }

theorem Tidy.removeRecords (tidy : manager.Tidy) {blockId : Nat} {times : List Nat}
    (completes : manager.Completes (.remove blockId times)) (ordered : manager.KeepsOrder (.remove blockId times)) :
    (manager.removeRecords blockId times).2.Tidy := by
  obtain ⟨served, fine⟩ := completes
  obtain ⟨-, block, -, seen, -, -⟩ := tidy.entry served
  obtain ⟨current, effect⟩ := removeRecords_effect tidy.toStocked tidy.current seen fine
  have smaller : ∀ (other : Nat) (cell : Set Nat), (manager.removeRecords blockId times).2.cells other = some cell →
      cell.Nonempty ∧ other ∈ cell ∧ ∃ whole, manager.cells other = some whole ∧ cell ⊆ whole := by
    have old (other : Nat) (cell : Set Nat) (found : manager.cells other = some cell) :
        cell.Nonempty ∧ other ∈ cell ∧ ∃ whole, manager.cells other = some whole ∧ cell ⊆ whole :=
      ⟨tidy.partitioned.inhabited other cell found, tidy.rooted other cell found, cell, found, subset_rfl⟩
    intro other cell found
    rcases effect with ⟨view, -⟩ | ⟨left, view, times_left, occupied⟩
    · rw [BlockManager.cells, view] at found
      by_cases same : other = blockId
      · simp [same] at found
      · exact old other cell (by rwa [Function.update_of_ne same] at found)
    · rw [cells_update view] at found
      by_cases same : other = blockId
      · subst same
        rw [Function.update_self, Option.some.injEq, times_left] at found
        subst found
        have whole : manager.cells other = some block.times := by simp [BlockManager.cells, seen]
        obtain ⟨time, record, present⟩ := occupied
        have kept : time ∈ block.times ∧ time ∉ times := by
          have member : time ∈ left.times := ⟨record, present⟩
          rwa [times_left] at member
        refine ⟨⟨time, kept⟩, ⟨tidy.rooted other _ whole, fun removed => kept.2 ?_⟩, block.times, whole, fun _ held => held.1⟩
        obtain ⟨stored, is⟩ := kept.1
        have := ordered removed block seen stored ((Block.mem_records block stored).mpr (by
          rwa [Block.getRecord_timestamp is]))
        rwa [Block.getRecord_timestamp is] at this
      · exact old other cell (by rwa [Function.update_of_ne same] at found)
  refine { tidy.toStocked.removeRecords blockId times served with
           partitioned := tidy.partitioned.restrict fun other cell found => ⟨(smaller other cell found).1, (smaller other cell found).2.2⟩
           current := current
           rooted := fun other cell found => (smaller other cell found).2.1
           bounded := ?_ }
  intro other cell found time member
  obtain ⟨-, -, whole, before, included⟩ := smaller other cell found
  exact tidy.bounded other whole before time (included member)

theorem tidy_created (path bucket entry : String) (backendType : BackendType) (evictions : List (List Nat)) :
    (created path bucket entry backendType evictions).Tidy := by
  have empty (blockId : Nat) (held : Set Nat) :
      (created path bucket entry backendType evictions).cells blockId ≠ some held := by
    simp [BlockManager.cells, view_created]
  refine { stocked_created path bucket entry backendType evictions with
           partitioned := (ordered_created path bucket entry backendType evictions).partitioned, current := ?_
           rooted := fun blockId held found => absurd found (empty blockId held)
           bounded := fun blockId held found => absurd found (empty blockId held) }
  intro blockId listed found
  simp [created, build] at found

/-- The figures of an entry whose blocks stay in order. -/
theorem info_exact (path bucket entry : String) (backendType : BackendType) (evictions : List (List Nat))
    (manager : BlockManager)
    (run : Runs takeStep (fun current step => current.Completes step ∧ current.KeepsOrder step)
      (created path bucket entry backendType evictions) manager) :
    manager.info.recordCount = manager.storedRecords.length ∧
      (manager.storedRecords ≠ [] → IsLeast manager.storedTimes manager.info.oldestRecord ∧
        IsGreatest manager.storedTimes manager.info.latestRecord) ∧
      ∀ (build : Condition.Build) (continuous : Bool), ∃ start stop,
        getQueryTimeRange build manager.info none none continuous = some (.ok (start, stop)) ∧
          ∀ record ∈ manager.storedRecords, start ≤ record.timestamp ∧ record.timestamp < stop := by
  have tidy : manager.Tidy := by
    refine run.invariant Tidy (tidy_created path bucket entry backendType evictions) ?_
    intro current step tidy allowed
    cases step with
    | write delivery => exact tidy.writeRecord (contentOf delivery.chunks) allowed.2.1 allowed.2.2
    | remove blockId times => exact tidy.removeRecords allowed.1 allowed.2
  exact ⟨tidy.recordCount, fun stored => ⟨tidy.oldestRecord stored, tidy.latestRecord stored⟩, tidy.queryTimeRange⟩

end Runs

end BlockManager

end ReductStore

namespace ReductStore.BlockManager

def smallStep (time : Nat) : EntryStep := .write (smallDelivery time)

def shortenedEntry : BlockManager := ((smallEntry.takeStep (smallStep 5)).takeStep (smallStep 7)).takeStep (.remove 5 [7])

theorem info_exact_shortened :
    shortenedEntry.info.recordCount = shortenedEntry.storedRecords.length ∧
      (shortenedEntry.storedRecords ≠ [] → IsLeast shortenedEntry.storedTimes shortenedEntry.info.oldestRecord ∧
        IsGreatest shortenedEntry.storedTimes shortenedEntry.info.latestRecord) ∧
      ∀ (build : Condition.Build) (continuous : Bool), ∃ start stop,
        getQueryTimeRange build shortenedEntry.info none none continuous = some (.ok (start, stop)) ∧
          ∀ record ∈ shortenedEntry.storedRecords, start ≤ record.timestamp ∧ record.timestamp < stop := by
  have first : smallEntry.Completes (smallStep 5) ∧ smallEntry.KeepsOrder (smallStep 5) :=
    ⟨rfl, by decide +kernel, by decide⟩
  have second : (smallEntry.takeStep (smallStep 5)).Completes (smallStep 7) ∧
      (smallEntry.takeStep (smallStep 5)).KeepsOrder (smallStep 7) :=
    ⟨rfl, by decide +kernel, by decide⟩
  have third : ((smallEntry.takeStep (smallStep 5)).takeStep (smallStep 7)).Completes (.remove 5 [7]) ∧
      ((smallEntry.takeStep (smallStep 5)).takeStep (smallStep 7)).KeepsOrder (.remove 5 [7]) :=
    ⟨⟨by unfold InService; decide +kernel, by decide +kernel⟩, fun first => absurd first (by decide)⟩
  exact info_exact "entry" "bucket" "entry" .filesystem [] _
    (((Runs.start.step (smallStep 5) first).step (smallStep 7) second).step (.remove 5 [7]) third)

def pairedEntry : BlockManager := (smallEntry.takeStep (smallStep 1)).takeStep (smallStep 3)

theorem completes_small (manager : BlockManager) (time : Nat) : manager.Completes (smallStep time) :=
  show (smallDelivery time).Exact from rfl

theorem runs_paired : Runs takeStep Completes smallEntry pairedEntry :=
  (Runs.start.step (smallStep 1) (completes_small _ 1)).step (smallStep 3) (completes_small _ 3)

def lastStep : EntryStep := smallStep 18446744073709551615

theorem info_inexact :
    (Runs takeStep Completes smallEntry (pairedEntry.takeStep (smallStep 2)) ∧
      (pairedEntry.takeStep (smallStep 2)).storedRecords.map Record.timestamp = [1, 3, 2] ∧
      (pairedEntry.takeStep (smallStep 2)).info.latestRecord = 2) ∧
    (Runs takeStep Completes smallEntry (pairedEntry.takeStep (.remove 1 [1])) ∧
      (pairedEntry.takeStep (.remove 1 [1])).storedRecords.map Record.timestamp = [3] ∧
      (pairedEntry.takeStep (.remove 1 [1])).info.oldestRecord = 1) ∧
    (Runs takeStep Completes smallEntry (smallEntry.takeStep lastStep) ∧
      getQueryTimeRange .debug (smallEntry.takeStep lastStep).info none none false = none ∧
      getQueryTimeRange .release (smallEntry.takeStep lastStep).info none none false =
        some (.error (unprocessableEntity "Start time must be before stop time"))) := by
  have removed : pairedEntry.Completes (.remove 1 [1]) := ⟨by unfold InService; decide +kernel, by decide +kernel⟩
  refine ⟨⟨runs_paired.step (smallStep 2) (completes_small _ 2), ?_, ?_⟩, ⟨runs_paired.step (.remove 1 [1]) removed, ?_, ?_⟩,
    Runs.start.step lastStep (completes_small _ _), ?_, ?_⟩
  · decide +kernel
  · decide +kernel
  · decide +kernel
  · decide +kernel
  · decide +kernel
  · decide +kernel

end ReductStore.BlockManager
