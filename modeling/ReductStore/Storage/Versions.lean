import ReductStore.Storage.Durability
import ReductStore.Storage.Recovery

set_option autoImplicit false

namespace ReductStore.BlockManager

open TreeMap

def savedEntry (manager : BlockManager) (blockId : Nat) : Option BlockEntry :=
  manager.disk.index.bind fun index => index[blockId]?

def savedVersion (manager : BlockManager) (blockId : Nat) : Option Nat :=
  (manager.savedEntry blockId).bind BlockEntry.version

variable [Codec]

section SavePoints

def metaPoints (manager : BlockManager) : List BlockRef → List (BlockManager × BlockRef)
  | [] => []
  | ref :: rest => (manager, ref) :: (manager.saveMetaOnDisk ref).metaPoints rest

def blockPoints (manager : BlockManager) (ref : BlockRef) : List (BlockManager × BlockRef) :=
  let (evicted, manager) := manager.insertWrite (manager.heap ref).blockId ref
  manager.metaPoints evicted

def startPoints (manager : BlockManager) (blockId maxBlockSize : Nat) : List (BlockManager × BlockRef) :=
  (manager.opened blockId maxBlockSize).blockPoints manager.next

def finishPoints (manager : BlockManager) (ref : BlockRef) : List (BlockManager × BlockRef) :=
  let block := manager.heap ref
  [(manager.modifyData block.blockId (File.setLen · block.size), ref)]

def registerPoints (manager : BlockManager) (ref : BlockRef) (time : Nat) : List (BlockManager × BlockRef) :=
  let block := manager.heap ref
  match block.getRecord time with
  | none => []
  | some _ => (manager.indexBlock block).blockPoints ref

def updatePoints (manager : BlockManager) (blockId : Nat) (records : List Record) : List (BlockManager × BlockRef) :=
  match manager.loadBlock blockId with
  | (.error _, _) => []
  | (.ok ref, manager) =>
    let manager := records.foldl (fun current record => current.walAppend blockId (.updateRecord record)) manager
    (manager.setBlock ref (records.foldl Block.insertOrUpdateRecord (manager.heap ref))).blockPoints ref

def finishWritePoints (manager : BlockManager) (blockId : Nat) (state : RecordState) (timestamp : Nat) :
    List (BlockManager × BlockRef) :=
  match manager.blockToFinish blockId with
  | (.error _, _) => []
  | (.ok ref, manager) =>
    match (manager.heap ref).changeRecordState timestamp state with
    | .error _ => []
    | .ok block =>
      let manager := manager.setBlock ref block
      let manager :=
        match block.getRecord timestamp with
        | some record => manager.walAppend blockId (.writeRecord record)
        | none => manager
      manager.blockPoints ref

end SavePoints

/-- What runs under one lock. The calls of `begin_write` are split, so that any number of them may be in progress. -/
inductive LockedStep where
  | startNewBlock (blockId maxBlockSize : Nat)
  | loadBlock (blockId : Nat)
  | finishBlock (ref : BlockRef)
  | overwriteRecord (call : WriteCall) (ref : BlockRef) (record : Record)
  | prepareBlockForWriting (call : WriteCall) (ref : BlockRef)
  | registerBlock (ref : BlockRef) (time : Nat)
  | writeData (blockId : Nat) (change : File → File)
  | finishWriteRecord (blockId : Nat) (state : RecordState) (timestamp : Nat)
  | updateRecords (blockId : Nat) (records : List Record)
  | saveCacheOnDisk
  | saveCacheMetadataOnDisk
  | dropRead (blockIds : List Nat)

def advance (manager : BlockManager) : LockedStep → BlockManager
  | .startNewBlock blockId maxBlockSize => (manager.startNewBlock blockId maxBlockSize).2
  | .loadBlock blockId => (manager.loadBlock blockId).2
  | .finishBlock ref => manager.finishBlock ref
  | .overwriteRecord call ref record => manager.overwriteRecord call ref record
  | .prepareBlockForWriting call ref => manager.prepareBlockForWriting call ref
  | .registerBlock ref time => (manager.registerBlock ref time).2
  | .writeData blockId change => manager.modifyData blockId change
  | .finishWriteRecord blockId state timestamp => (manager.finishWriteRecord blockId state timestamp).2
  | .updateRecords blockId records => (manager.updateRecords blockId records).2
  | .saveCacheOnDisk => manager.saveCacheOnDisk
  | .saveCacheMetadataOnDisk => manager.saveCacheMetadataOnDisk
  | .dropRead blockIds => manager.dropRead blockIds

def savePoints (manager : BlockManager) : LockedStep → List (BlockManager × BlockRef)
  | .startNewBlock blockId maxBlockSize => manager.startPoints blockId maxBlockSize
  | .finishBlock ref => manager.finishPoints ref
  | .registerBlock ref time => manager.registerPoints ref time
  | .finishWriteRecord blockId state timestamp => manager.finishWritePoints blockId state timestamp
  | .updateRecords blockId records => manager.updatePoints blockId records
  | .saveCacheOnDisk => manager.metaPoints (manager.writeCache.toList.map Prod.snd)
  | .saveCacheMetadataOnDisk =>
    manager.metaPoints ((manager.writeCache.toList.map Prod.snd).filter
      fun ref => (manager.heap ref).blockId ∈ manager.disk.wal.keys)
  | _ => []

def KeepsVersion (manager : BlockManager) : LockedStep → Prop
  | .startNewBlock blockId _ => manager.savedVersion blockId = none
  | .registerBlock ref _ => manager.savedVersion (manager.heap ref).blockId = none
  | _ => True

section Ahead

def Ahead (manager : BlockManager) : Prop :=
  ∀ blockId entry, manager.savedEntry blockId = some entry → entry.version.getD 0 < manager.nextVersion blockId

variable {manager other : BlockManager}

omit [Codec] in
theorem Ahead.congr (ahead : manager.Ahead) (index : other.blockIndex = manager.blockIndex)
    (file : other.disk.index = manager.disk.index) : other.Ahead := by
  intro blockId entry found
  rw [nextVersion, index]
  rw [savedEntry, file] at found
  exact ahead blockId entry found

omit [Codec] in
theorem ahead_saved (file : manager.disk.index = some manager.blockIndex) : manager.Ahead := by
  intro blockId entry found
  rw [savedEntry, file, Option.bind_some] at found
  simp [nextVersion, found]

omit [Codec] in
theorem Ahead.indexBlock (ahead : manager.Ahead) (block : Block) (unversioned : manager.savedVersion block.blockId = none) :
    (manager.indexBlock block).Ahead := by
  intro blockId entry found
  change manager.savedEntry blockId = some entry at found
  by_cases same : blockId = block.blockId
  · subst same
    have none : entry.version = none := by simpa [savedVersion, found] using unversioned
    simp [none, nextVersion]
  · have kept := ahead blockId entry found
    simpa [nextVersion, BlockManager.indexBlock, BlockIndex.insertOrUpdate, BlockEntry.ofBlock, same] using kept

theorem ahead_saveMeta (manager : BlockManager) (ref : BlockRef) : (manager.saveMetaOnDisk ref).Ahead :=
  ahead_saved (saveMeta_index manager ref)

theorem Ahead.saveMetas (refs : List BlockRef) (manager : BlockManager) (ahead : manager.Ahead) :
    (manager.saveMetas refs).Ahead := by
  induction refs generalizing manager with
  | nil => exact ahead
  | cons ref rest ih => exact ih (manager.saveMetaOnDisk ref) (ahead_saveMeta manager ref)

theorem Ahead.metaPoints (refs : List BlockRef) (manager : BlockManager) (ahead : manager.Ahead) :
    ∀ point ∈ manager.metaPoints refs, point.1.Ahead := by
  induction refs generalizing manager with
  | nil => simp [BlockManager.metaPoints]
  | cons ref rest ih =>
    intro point member
    rcases List.mem_cons.mp member with rfl | later
    · exact ahead
    · exact ih (manager.saveMetaOnDisk ref) (ahead_saveMeta manager ref) point later

structure KeepsAhead (points : List (BlockManager × BlockRef)) (after : BlockManager) : Prop where
  points : ∀ point ∈ points, point.1.Ahead
  after : after.Ahead

theorem Ahead.saveBlock (ahead : manager.Ahead) (ref : BlockRef) :
    KeepsAhead (manager.blockPoints ref) (manager.saveBlock ref) := by
  have inserted : (manager.insertWrite (manager.heap ref).blockId ref).2.Ahead := ahead.congr rfl rfl
  exact ⟨Ahead.metaPoints _ _ inserted, Ahead.saveMetas _ _ inserted⟩

theorem Ahead.start (ahead : manager.Ahead) (blockId maxBlockSize : Nat)
    (unversioned : manager.savedVersion blockId = none) :
    KeepsAhead (manager.startPoints blockId maxBlockSize) (manager.startNewBlock blockId maxBlockSize).2 := by
  have created : (manager.modifyData blockId
      (if manager.backendType = .filesystem then (File.setLen · maxBlockSize) else id)).Ahead := ahead.congr rfl rfl
  have opened : (manager.opened blockId maxBlockSize).Ahead :=
    (created.indexBlock (Block.new blockId) unversioned).congr rfl rfl
  exact opened.saveBlock manager.next

theorem Ahead.finish (ahead : manager.Ahead) (ref : BlockRef) :
    KeepsAhead (manager.finishPoints ref) (manager.finishBlock ref) := by
  refine ⟨?_, ahead_saveMeta _ ref⟩
  intro point member
  obtain rfl := List.mem_singleton.mp member
  exact ahead.congr rfl rfl

theorem Ahead.register (ahead : manager.Ahead) (ref : BlockRef) (time : Nat)
    (unversioned : manager.savedVersion (manager.heap ref).blockId = none) :
    KeepsAhead (manager.registerPoints ref time) (manager.registerBlock ref time).2 := by
  have indexed := ahead.indexBlock (manager.heap ref) unversioned
  unfold registerPoints registerBlock
  simp only
  cases (manager.heap ref).getRecord time with
  | none => exact ⟨by simp, indexed⟩
  | some record => exact indexed.saveBlock ref

theorem Ahead.loadBlock (ahead : manager.Ahead) (blockId : Nat) : (manager.loadBlock blockId).2.Ahead := by
  unfold BlockManager.loadBlock
  cases manager.getRead blockId with
  | some ref => exact ahead.congr rfl rfl
  | none =>
    -- a block that cannot be read is marked, and then the index is saved
    have marked : (manager.markBlockCorrupted blockId).Ahead := ahead_saved rfl
    cases manager.disk.desc[blockId]? with
    | none => exact marked
    | some proto =>
      cases manager.blockIndex[blockId]? with
      | none => exact ahead
      | some entry =>
        simp only
        split_ifs
        · exact ahead.congr rfl rfl
        · exact ahead_saved rfl
        · exact marked

theorem Ahead.blockToFinish (ahead : manager.Ahead) (blockId : Nat) : (manager.blockToFinish blockId).2.Ahead := by
  unfold BlockManager.blockToFinish
  cases manager.getWrite blockId with
  | none => exact ahead.loadBlock blockId
  | some ref =>
    simp only
    split_ifs
    · exact ahead
    · exact ahead.loadBlock blockId

theorem Ahead.update (ahead : manager.Ahead) (blockId : Nat) (records : List Record) :
    KeepsAhead (manager.updatePoints blockId records) (manager.updateRecords blockId records).2 := by
  have loaded := ahead.loadBlock blockId
  unfold updatePoints updateRecords
  generalize manager.loadBlock blockId = reply at loaded ⊢
  obtain ⟨result, middle⟩ := reply
  cases result with
  | error failure => exact ⟨by simp, loaded⟩
  | ok ref =>
    obtain ⟨_, _, file, index⟩ := appendLog_memory (records.map .updateRecord) middle blockId
    have logged : (records.foldl (fun current record => current.walAppend blockId (.updateRecord record)) middle).Ahead := by
      rw [appendLog, List.foldl_map] at file index
      exact loaded.congr index file
    have edited (block : Block) := (logged.congr rfl rfl : (BlockManager.setBlock _ ref block).Ahead)
    exact (edited _).saveBlock ref

theorem Ahead.finishWrite (ahead : manager.Ahead) (blockId : Nat) (state : RecordState) (timestamp : Nat) :
    KeepsAhead (manager.finishWritePoints blockId state timestamp)
      (manager.finishWriteRecord blockId state timestamp).2 := by
  have found := ahead.blockToFinish blockId
  unfold finishWritePoints finishWriteRecord
  generalize manager.blockToFinish blockId = reply at found ⊢
  obtain ⟨result, middle⟩ := reply
  cases result with
  | error failure => exact ⟨by simp, found⟩
  | ok ref =>
    simp only
    cases (middle.heap ref).changeRecordState timestamp state with
    | error failure => exact ⟨by simp, found⟩
    | ok block =>
      have edited : (middle.setBlock ref block).Ahead := found.congr rfl rfl
      simp only
      cases block.getRecord timestamp with
      | none => exact edited.saveBlock ref
      | some record =>
        have logged : ((middle.setBlock ref block).walAppend blockId (.writeRecord record)).Ahead := edited.congr rfl rfl
        exact logged.saveBlock ref

theorem Ahead.saveLogged (ahead : manager.Ahead) : manager.saveCacheMetadataOnDisk.Ahead := by
  unfold saveCacheMetadataOnDisk
  simp only
  split_ifs
  · exact ahead
  · refine List.foldlRecOn _ _ ahead fun current kept ref _ => ?_
    split_ifs
    · exact ahead_saveMeta current ref
    · exact kept

theorem Ahead.advance (ahead : manager.Ahead) (step : LockedStep) (keeps : manager.KeepsVersion step) :
    KeepsAhead (manager.savePoints step) (manager.advance step) := by
  have unsaved (after : BlockManager) (kept : after.Ahead) : KeepsAhead [] after := ⟨by simp, kept⟩
  cases step with
  | startNewBlock blockId maxBlockSize => exact ahead.start blockId maxBlockSize keeps
  | loadBlock blockId => exact unsaved _ (ahead.loadBlock blockId)
  | finishBlock ref => exact ahead.finish ref
  | overwriteRecord call ref record => exact unsaved _ (ahead.congr rfl rfl)
  | prepareBlockForWriting call ref => exact unsaved _ (ahead.congr rfl rfl)
  | registerBlock ref time => exact ahead.register ref time keeps
  | writeData blockId change => exact unsaved _ (ahead.congr rfl rfl)
  | finishWriteRecord blockId state timestamp => exact ahead.finishWrite blockId state timestamp
  | updateRecords blockId records => exact ahead.update blockId records
  | saveCacheOnDisk => exact ⟨Ahead.metaPoints _ _ ahead, Ahead.saveMetas _ _ ahead⟩
  | saveCacheMetadataOnDisk => exact ⟨Ahead.metaPoints _ _ ahead, ahead.saveLogged⟩
  | dropRead blockIds => exact unsaved _ (ahead.congr rfl rfl)

omit [Codec] in
theorem ahead_created (path bucket entry : String) (backendType : BackendType) (evictions : List (List Nat)) :
    (created path bucket entry backendType evictions).Ahead :=
  ahead_saved rfl

end Ahead

section Crash

def tornSave (manager : BlockManager) (ref : BlockRef) : BlockManager := manager.writeDescriptor (manager.snapshot ref)

omit [Codec] in
theorem adopt_content (manager : BlockManager) (blockId : Nat) (proto : BlockProto) :
    ∃ ref after, manager.adopt blockId proto = (.ok ref, after) ∧ after.heap ref = Block.ofProto proto ∧
      after.blockIndex = manager.blockIndex :=
  ⟨manager.next, _, rfl, Function.update_self .., rfl⟩

def Heals (manager : BlockManager) (ref : BlockRef) (evictions : List (List Nat)) : Prop :=
  ∃ loaded after,
    ((manager.tornSave ref).reopen evictions).loadBlock (manager.heap ref).blockId = (.ok loaded, after) ∧
    after.heap loaded = manager.heap ref ∧
    (after.blockIndex.isCorrupted (manager.heap ref).blockId →
      ∃ entry, manager.savedEntry (manager.heap ref).blockId = some entry ∧ entry.corrupted = some true)

theorem Ahead.heals {manager : BlockManager} (ahead : manager.Ahead) (ref : BlockRef) (evictions : List (List Nat))
    (known : manager.savedEntry (manager.heap ref).blockId ≠ none) : manager.Heals ref evictions := by
  obtain ⟨entry, found⟩ := Option.ne_none_iff_exists'.mp known
  obtain ⟨index, file, indexed⟩ := Option.bind_eq_some_iff.mp found
  have newer := ahead _ entry found
  unfold Heals
  have title : (manager.snapshot ref).beginTime = (manager.heap ref).blockId := rfl
  have version : (manager.snapshot ref).version = some (manager.nextVersion (manager.heap ref).blockId) := rfl
  have content : Block.ofProto (manager.snapshot ref) = manager.heap ref := Block.ofProto_toProto _ _ _
  generalize (manager.heap ref).blockId = blockId at *
  set reopened := (manager.tornSave ref).reopen evictions with reopenedEq
  have opened : reopened = build manager.path index manager.bucket manager.entry manager.backendType evictions
      (manager.tornSave ref).disk := by
    have torn : (manager.tornSave ref).disk.index = some index := file
    simp only [reopenedEq, reopen, Disk.openIndex, torn]
    rfl
  have described : reopened.disk.desc[blockId]? = some (manager.snapshot ref) := by
    rw [opened]
    simp [build, tornSave, writeDescriptor, title]
  have uncached : reopened.getRead blockId = none := by simp [opened, build, getRead]
  have listed : reopened.blockIndex[blockId]? = some entry := by rw [opened]; exact indexed
  simp only [BlockManager.loadBlock, uncached, described, listed, version, Option.getD_some, newer, if_true]
  -- without a checksum, or with the same one, the index is left alone; else the newer descriptor replaces its entry
  split_ifs with accepted
  · obtain ⟨loaded, after, adopted, held, same⟩ := adopt_content reopened blockId (manager.snapshot ref)
    refine ⟨loaded, after, adopted, held.trans content, ?_⟩
    simp [same, BlockIndex.isCorrupted, listed, found]
  · obtain ⟨loaded, after, adopted, held, same⟩ := adopt_content (BlockManager.saveIndex { reopened with
      blockIndex := reopened.blockIndex.insertOrUpdateWithCrc (BlockEntry.ofProto (manager.snapshot ref))
        (manager.snapshot ref).crc }) blockId (manager.snapshot ref)
    refine ⟨loaded, after, adopted, held.trans content, ?_⟩
    have unmarked : (manager.snapshot ref).corrupted = none := rfl
    simp [same, saveIndex, BlockIndex.isCorrupted, BlockIndex.insertOrUpdateWithCrc, BlockIndex.insertOrUpdate,
      BlockEntry.ofProto, title, unmarked]

end Crash

section Runs

abbrev Interleaves : BlockManager → BlockManager → Prop := Runs advance (fun _ _ => True)

variable {start manager : BlockManager}

theorem openWriter_state (manager : BlockManager) (ref : BlockRef) (time : Nat) :
    (manager.openWriter ref time).2 = (manager.registerBlock ref time).2 := by
  unfold openWriter
  generalize manager.registerBlock ref time = reply
  obtain ⟨result, after⟩ := reply
  cases result <;> rfl

theorem interleaves_openWriter (run : Interleaves start manager) (ref : BlockRef) (time : Nat) :
    Interleaves start (manager.openWriter ref time).2 := by
  rw [openWriter_state]
  exact run.step (.registerBlock ref time) trivial

theorem interleaves_appendRecord (run : Interleaves start manager) (call : WriteCall) (ref : BlockRef) :
    Interleaves start (manager.appendRecord call ref).2 := by
  unfold appendRecord
  by_cases full : (manager.heap ref).isFull call
  · simp only [full, if_true]
    have rotated : Interleaves start (manager.rotateBlock call ref).2 :=
      (run.step (.finishBlock ref) trivial).step (.startNewBlock call.time call.settings.maxBlockSize) trivial
    exact interleaves_openWriter (rotated.step (.prepareBlockForWriting call _) trivial) _ call.time
  · simp only [full, Bool.false_eq_true, if_false]
    exact interleaves_openWriter (run.step (.prepareBlockForWriting call ref) trivial) ref call.time

theorem interleaves_selectBlock (run : Interleaves start manager) (call : WriteCall) :
    Interleaves start (manager.selectBlock call).2 := by
  unfold selectBlock
  cases manager.blockIndex.activeTree.getLast? with
  | none => exact run.step (.startNewBlock call.time call.settings.maxBlockSize) trivial
  | some blockId => exact run.step (.loadBlock blockId) trivial

theorem interleaves_findBlock (run : Interleaves start manager) (time : Nat) :
    Interleaves start (manager.findBlock time).2 := by
  unfold findBlock
  cases manager.findBlockId time with
  | error failure => exact run
  | ok blockId => exact run.step (.loadBlock blockId) trivial

theorem interleaves_locateBlock (run : Interleaves start manager) (call : WriteCall) :
    Interleaves start (manager.locateBlock call).2 := by
  have found := interleaves_findBlock run call.time
  unfold locateBlock
  cases manager.blockIndex.activeTree.head? with
  | none => exact run
  | some first =>
    simp only
    split_ifs
    · exact run.step (.startNewBlock call.time call.settings.maxBlockSize) trivial
    · generalize manager.findBlock call.time = reply at found ⊢
      obtain ⟨result, after⟩ := reply
      cases result <;> exact found

theorem interleaves_beginWrite (run : Interleaves start manager) (call : WriteCall) :
    Interleaves start (manager.beginWrite call).2 := by
  have selected := interleaves_selectBlock run call
  unfold beginWrite
  generalize manager.selectBlock call = reply at selected ⊢
  obtain ⟨result, middle⟩ := reply
  cases result with
  | error failure => exact selected
  | ok ref =>
    simp only
    split_ifs with belated
    · have located := interleaves_locateBlock selected call
      generalize middle.locateBlock call = answer at located ⊢
      obtain ⟨place, final⟩ := answer
      rcases place with failure | ⟨_ | _, other⟩
      · exact located
      · simp only
        cases (final.heap other).getRecord call.time with
        | none => exact interleaves_appendRecord located call other
        | some record =>
          simp only
          split_ifs
          · exact interleaves_openWriter (located.step (.overwriteRecord call other record) trivial) other call.time
          · exact located
      · exact interleaves_appendRecord located call other
    · exact interleaves_appendRecord selected call ref

/-- In a run that registers no block anew which the index file has with a version, a crash between a descriptor and the
    index is healed once the index file has the block. -/
theorem torn_save_heals (path bucket entry : String) (backendType : BackendType) (evictions : List (List Nat))
    (manager : BlockManager)
    (run : Runs advance KeepsVersion (created path bucket entry backendType evictions) manager)
    (step : LockedStep) (keeps : manager.KeepsVersion step)
    (saving : BlockManager) (ref : BlockRef) (point : (saving, ref) ∈ manager.savePoints step) :
    (∀ saved, saving.savedEntry (saving.heap ref).blockId = some saved →
        ∃ version, (saving.snapshot ref).version = some version ∧ saved.version.getD 0 < version) ∧
      (saving.savedEntry (saving.heap ref).blockId ≠ none → ∀ later, saving.Heals ref later) := by
  have ahead := run.invariant Ahead (ahead_created path bucket entry backendType evictions)
    (fun current operation ahead keeps => (ahead.advance operation keeps).after)
  have saved := (ahead.advance step keeps).points (saving, ref) point
  exact ⟨fun entry found => ⟨_, rfl, saved _ entry found⟩, fun known later => saved.heals ref later known⟩

end Runs

end ReductStore.BlockManager

namespace ReductStore.BlockManager

def onceSavedEntry : BlockManager :=
  (((smallEntry.advance (.startNewBlock 1 10)).advance (.prepareBlockForWriting (smallWrite 1 4) 0)).advance
    (.registerBlock 0 1)).advance .saveCacheOnDisk

theorem torn_save_heals_at_second : onceSavedEntry.Heals 0 [] := by
  have fresh : smallEntry.KeepsVersion (.startNewBlock 1 10) := by
    show smallEntry.savedVersion 1 = none
    decide +kernel
  have unsaved : ((smallEntry.advance (.startNewBlock 1 10)).advance
      (.prepareBlockForWriting (smallWrite 1 4) 0)).KeepsVersion (.registerBlock 0 1) := by
    show BlockManager.savedVersion _ _ = none
    decide +kernel
  have run : Runs advance KeepsVersion smallEntry onceSavedEntry :=
    (((Runs.start.step (LockedStep.startNewBlock 1 10) fresh).step (.prepareBlockForWriting (smallWrite 1 4) 0)
      trivial).step (.registerBlock 0 1) unsaved).step .saveCacheOnDisk trivial
  have cached : onceSavedEntry.writeCache.toList.map Prod.snd = [0] := by decide +kernel
  have point : (onceSavedEntry, 0) ∈ onceSavedEntry.savePoints .saveCacheOnDisk := by
    simp [savePoints, cached, metaPoints]
  have known : onceSavedEntry.savedEntry (onceSavedEntry.heap 0).blockId ≠ none := by decide +kernel
  exact (torn_save_heals "entry" "bucket" "entry" .filesystem [] onceSavedEntry run .saveCacheOnDisk trivial onceSavedEntry 0
    point).2 known []

def reversionedEntry : BlockManager :=
  (((smallEntry.beginWrite (smallWrite 1 4)).2.finishWriteRecord 1 .finished 1).2.saveCacheOnDisk.beginWrite
    (smallWrite 2 4)).2

theorem torn_save_corrupts :
    Interleaves smallEntry reversionedEntry ∧
      (reversionedEntry, 0) ∈ reversionedEntry.savePoints .saveCacheOnDisk ∧
      reversionedEntry.savedVersion 1 = some 1 ∧ (reversionedEntry.snapshot 0).version = some 1 ∧
      (((reversionedEntry.tornSave 0).reopen []).loadBlock 1).1.toOption = none ∧
      (((reversionedEntry.tornSave 0).reopen []).loadBlock 1).2.blockIndex.isCorrupted 1 = true := by
  have cached : reversionedEntry.writeCache.toList.map Prod.snd = [0] := by decide +kernel
  refine ⟨?_, by simp [savePoints, cached, metaPoints], ?_, ?_, ?_, ?_⟩
  · have written := interleaves_beginWrite (Runs.start : Interleaves smallEntry smallEntry) (smallWrite 1 4)
    have saved := (written.step (.finishWriteRecord 1 .finished 1) trivial).step .saveCacheOnDisk trivial
    exact interleaves_beginWrite saved (smallWrite 2 4)
  all_goals decide +kernel

end ReductStore.BlockManager
