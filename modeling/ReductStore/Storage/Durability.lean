import ReductStore.Shared.Machine
import ReductStore.Storage.BeginWrite
import ReductStore.Storage.RecordUpdates
import ReductStore.Storage.Wire

set_option autoImplicit false

namespace ReductStore.BlockManager

open TreeMap

variable [Codec]

def stored (manager : BlockManager) (blockId : Nat) : Block :=
  (manager.disk.desc[blockId]?.map Block.ofProto).getD (Block.new blockId)

def logOf (manager : BlockManager) (blockId : Nat) : List WalEntry := manager.disk.wal[blockId]?.getD []

def persisted (manager : BlockManager) (blockId : Nat) : Block :=
  (replay (manager.stored blockId) (manager.logOf blockId)).1

def visible (manager : BlockManager) (blockId : Nat) : Block := (manager.view blockId).getD (Block.new blockId)

structure Durable (manager : BlockManager) : Prop extends Sound manager where
  logged : ∀ blockId, (manager.persisted blockId).finished = (manager.visible blockId).finished
  kept : ∀ blockId, .removeBlock ∉ manager.logOf blockId
  clean : ∀ blockId, ¬ manager.InService blockId →
    manager.blockIndex[blockId]? = none ∧ manager.disk.desc[blockId]? = none

section Steps

variable {before changed after : BlockManager}

omit [Codec] in
theorem Untouched.files {blockId : Nat} (untouched : Untouched before after blockId) :
    after.stored blockId = before.stored blockId ∧ after.logOf blockId = before.logOf blockId := by
  simp only [stored, logOf, untouched.1, untouched.2.1, and_self]

omit [Codec] in
theorem Untouched.trans {blockId : Nat} (first : Untouched before changed blockId)
    (second : Untouched changed after blockId) : Untouched before after blockId :=
  ⟨second.1.trans first.1, second.2.1.trans first.2.1, second.2.2.trans first.2.2⟩

theorem Saved.files {blockId : Nat} {block : Block} (saved : after.Saved blockId block) :
    after.stored blockId = block ∧ after.logOf blockId = [] ∧ after.InService blockId := by
  obtain ⟨proto, entry, desc, content, _, indexed, sound, _, wal⟩ := saved
  refine ⟨?_, ?_, (inService_iff after blockId).mpr ⟨entry, indexed, by simp [sound]⟩⟩
  · simp [stored, desc, content]
  · simp [logOf, wal]

structure DurableAt (manager : BlockManager) (blockId : Nat) : Prop where
  logged : (manager.persisted blockId).finished = (manager.visible blockId).finished
  kept : .removeBlock ∉ manager.logOf blockId
  clean : ¬ manager.InService blockId → manager.blockIndex[blockId]? = none ∧ manager.disk.desc[blockId]? = none

theorem Sound.durable (sound : after.Sound) (durable : ∀ blockId, after.DurableAt blockId) : after.Durable :=
  { sound with
    logged := fun blockId => (durable blockId).logged
    kept := fun blockId => (durable blockId).kept
    clean := fun blockId => (durable blockId).clean }

theorem Durable.untouched (durable : before.Durable) {blockId : Nat} (untouched : Untouched before after blockId)
    (view : after.view blockId = before.view blockId) : after.DurableAt blockId := by
  obtain ⟨stored, log⟩ := untouched.files
  refine ⟨?_, ?_, ?_⟩
  · rw [persisted, stored, log, visible, view]
    exact durable.logged blockId
  · rw [log]
    exact durable.kept blockId
  · rw [inService_iff, untouched.2.2, ← inService_iff, untouched.1]
    exact durable.clean blockId

theorem Saved.durable {blockId : Nat} {block : Block} (saved : after.Saved blockId block)
    (view : after.view blockId = some block) : after.DurableAt blockId := by
  obtain ⟨stored, log, served⟩ := saved.files
  refine ⟨?_, ?_, fun outside => absurd served outside⟩
  · simp [persisted, stored, log, visible, view, replay]
  · simp [log]

theorem Durable.save (durable : before.Durable) {blockId : Nat} {ref : BlockRef} (cached : before.Cached blockId ref) :
    (before.saveMetaOnDisk ref).Durable := by
  have view := (durable.toSteady.saveMeta cached).2
  have title := durable.named blockId ref cached
  refine ((Primitive.save cached).sound durable.toSound).durable fun other => ?_
  by_cases same : other = (before.heap ref).blockId
  · subst same
    refine (saveMeta_saved before ref).durable ?_
    rw [view, title]
    exact durable.toSteady.cached_view cached
  · exact durable.untouched (saveMeta_untouched before ref other (Ne.symm same)) (congrFun view other)

structure Stores (before changed after : BlockManager) (ref : BlockRef) : Prop where
  effect : SaveEffect changed after ref
  others : ∀ blockId, blockId ≠ (changed.heap ref).blockId → Untouched before changed blockId
  cached : ∀ (blockId : Nat) (other : BlockRef), blockId ≠ (changed.heap ref).blockId →
    changed.writeCache[blockId]? = some other → before.view blockId = some (changed.heap other)
  view : after.view = Function.update before.view (changed.heap ref).blockId (some (changed.heap ref))

section Stores

variable {ref : BlockRef}

theorem Stores.seen (stores : Stores before changed after ref) :
    after.view (changed.heap ref).blockId = some (changed.heap ref) := by
  rw [stores.view, Function.update_self]

theorem Stores.files (stores : Stores before changed after ref) :
    after.stored (changed.heap ref).blockId = changed.stored (changed.heap ref).blockId ∧
      after.logOf (changed.heap ref).blockId = changed.logOf (changed.heap ref).blockId := by
  rcases stores.effect.at_id (changed.heap ref).blockId with ⟨_, untouched⟩ | ⟨gone, _⟩
  · exact untouched.files
  · rw [stores.effect.target] at gone
    cases gone

theorem Stores.other (stores : Stores before changed after ref) {blockId : Nat}
    (different : blockId ≠ (changed.heap ref).blockId) :
    after.view blockId = before.view blockId ∧
      (Untouched before after blockId ∨ ∃ block, before.view blockId = some block ∧ after.Saved blockId block) := by
  refine ⟨by rw [stores.view, Function.update_of_ne different], ?_⟩
  rcases stores.effect.at_id blockId with ⟨_, untouched⟩ | ⟨_, other, present, saved⟩
  · exact Or.inl ((stores.others blockId different).trans untouched)
  · rw [get_insert, if_neg different] at present
    exact Or.inr ⟨_, stores.cached blockId other different present, saved⟩

theorem Stores.durable (stores : Stores before changed after ref) (durable : before.Durable) (sound : after.Sound)
    (logged : (changed.persisted (changed.heap ref).blockId).finished = (changed.heap ref).finished)
    (kept : .removeBlock ∉ changed.logOf (changed.heap ref).blockId) : after.Durable := by
  refine sound.durable fun blockId => ?_
  by_cases same : blockId = (changed.heap ref).blockId
  · subst same
    have seen := stores.seen
    obtain ⟨stored, log⟩ := stores.files
    refine ⟨?_, ?_, fun outside => absurd ((sound.toSteady.view_iff _ _).mp seen).1 outside⟩
    · rw [persisted, stored, log, visible, seen]
      exact logged
    · rwa [log]
  · obtain ⟨view, untouched | ⟨block, seen, saved⟩⟩ := stores.other same
    · exact durable.untouched untouched view
    · exact saved.durable (view.trans seen)

end Stores

theorem Steady.start_stores (steady : before.Steady) (blockId maxBlockSize : Nat)
    (uncached : before.readCache[blockId]? = none) :
    Stores before (before.opened blockId maxBlockSize) (before.startNewBlock blockId maxBlockSize).2 before.next ∧
      (before.opened blockId maxBlockSize).heap before.next = Block.new blockId := by
  have content := opened_heap before blockId maxBlockSize
  have title : ((before.opened blockId maxBlockSize).heap before.next).blockId = blockId := by rw [content]; rfl
  refine ⟨⟨(startNewBlock_effect steady.toWired blockId maxBlockSize uncached).save, ?_, ?_, ?_⟩, content⟩
  · intro other different
    rw [title] at different
    refine ⟨rfl, rfl, ?_⟩
    simp [opened, allocate, setBlock, indexBlock, BlockManager.modifyData, BlockIndex.insertOrUpdate, BlockEntry.ofBlock,
      different]
  · intro other ref _ present
    have cached : before.Cached other ref := Or.inl present
    have old : ref ≠ before.next := (steady.fresh other ref cached).ne
    rw [steady.cached_view cached]
    simp [opened, allocate, setBlock, indexBlock, BlockManager.modifyData, Function.update_of_ne old]
  · rw [title, content]
    exact (steady.start blockId maxBlockSize uncached).2.2

theorem Durable.start (durable : before.Durable) (blockId maxBlockSize : Nat)
    (uncached : before.readCache[blockId]? = none)
    (empty : ∀ block, before.view blockId = some block → ¬ block.Occupied) :
    (before.startNewBlock blockId maxBlockSize).2.Durable := by
  obtain ⟨stores, content⟩ := durable.toSteady.start_stores blockId maxBlockSize uncached
  have unfinished : (before.visible blockId).finished = (Block.new blockId).finished := by
    rw [visible]
    cases seen : before.view blockId with
    | none => rfl
    | some block =>
      funext time
      rw [Block.finished_new, Option.getD_some, Block.finished]
      cases found : block.getRecord time with
      | none => rfl
      | some record => exact absurd ⟨time, record, found⟩ (empty block seen)
  refine stores.durable durable ((Primitive.start blockId maxBlockSize uncached empty).sound durable.toSound) ?_ ?_
  · rw [content, ← unfinished]
    exact durable.logged blockId
  · rw [content]
    exact durable.kept blockId

theorem Steady.commit_stores (steady : before.Steady) {blockId : Nat} {ref : BlockRef}
    (cached : before.Cached blockId ref) (block : Block) (name : block.blockId = blockId) (entries : List WalEntry)
    (indexed : Bool) :
    Stores before (before.committing ref block entries indexed) (before.commit ref block entries indexed) ref ∧
      (before.committing ref block entries indexed).heap ref = block ∧
      (before.committing ref block entries indexed).stored blockId = before.stored blockId ∧
      (before.committing ref block entries indexed).logOf blockId = before.logOf blockId ++ entries := by
  have edited := committing_edited before ref block entries indexed
  have wired := edited.wired steady.toWired (name.trans (steady.named blockId ref cached).symm)
  have effect : SaveEffect (before.committing ref block entries indexed) _ ref :=
    saveBlock_effect ref (fun other found write => wired.named other found (Or.inl write))
  have content : (before.committing ref block entries indexed).heap ref = block := by
    rw [edited.heap, Function.update_self]
  have wal : (before.committing ref block entries indexed).disk.wal = (before.appendLog blockId entries).disk.wal := by
    cases indexed <;> simp [committing, setBlock, indexBlock, name]
  refine ⟨⟨effect, ?_, ?_, ?_⟩, content, by simp only [stored, edited.desc], ?_⟩
  · intro other different
    rw [content, name] at different
    refine ⟨by rw [edited.desc], by rw [wal, appendLog_other entries before blockId other different], ?_⟩
    rcases edited.index with same | added
    · rw [same]
    · rw [added]
      simp [indexBlock, BlockIndex.insertOrUpdate, BlockEntry.ofBlock, name, different]
  · intro other found different present
    rw [content, name] at different
    rw [edited.write] at present
    have apart : found ≠ ref := by
      rintro rfl
      exact different (steady.toWired.distinct (Or.inl present) cached)
    rw [edited.heap, Function.update_of_ne apart]
    exact steady.cached_view (Or.inl present)
  · rw [content, name]
    exact (steady.commit cached name edited).2.2
  · rw [logOf, wal, appendLog_wal]
    simp [logOf]

theorem Durable.commit (durable : before.Durable) {blockId : Nat} {ref : BlockRef} (cached : before.Cached blockId ref)
    (block : Block) (name : block.blockId = blockId) (entries : List WalEntry) (kept : .removeBlock ∉ entries)
    (logged : (replay (before.heap ref) entries).1.finished = block.finished) (indexed : Bool)
    (sound : (before.commit ref block entries indexed).Sound) : (before.commit ref block entries indexed).Durable := by
  obtain ⟨stores, content, files, log⟩ := durable.toSteady.commit_stores cached block name entries indexed
  refine stores.durable durable sound ?_ ?_
  · have seen := durable.logged blockId
    rw [visible, durable.toSteady.cached_view cached, Option.getD_some] at seen
    rw [content, name, ← logged, persisted, files, log, replay_append _ _ _ (durable.kept blockId)]
    exact replay_finished _ _ entries seen
  · rw [content, name, log]
    simp [durable.kept blockId, kept]

theorem Primitive.durable (step : Primitive before after) (durable : before.Durable) : after.Durable := by
  have sound := step.sound durable.toSound
  cases step with
  | load loaded =>
    have view := loaded.view durable.toSteady
    refine sound.durable fun blockId => durable.untouched ?_ (congrFun view blockId)
    exact ⟨by rw [loaded.disk], by rw [loaded.disk], by rw [loaded.index]⟩
  | start blockId maxBlockSize uncached empty => exact durable.start blockId maxBlockSize uncached empty
  | finish cached =>
    rename_i blockId ref
    have resized : (before.modifyData (before.heap ref).blockId (File.setLen · (before.heap ref).size)).Durable :=
      ((Primitive.write _ _).sound durable.toSound).durable fun other => durable.untouched ⟨rfl, rfl, rfl⟩ rfl
    exact resized.save (show (before.modifyData _ _).Cached blockId ref from cached)
  | save cached => exact durable.save cached
  | commit cached block name entries kept logged accounted indexed =>
    exact durable.commit cached block name entries kept logged indexed sound
  | write blockId change => exact sound.durable fun other => durable.untouched ⟨rfl, rfl, rfl⟩ rfl
  | drop blockIds =>
    have view := (durable.toSteady.drop blockIds).2
    exact sound.durable fun other => durable.untouched ⟨rfl, rfl, rfl⟩ (congrFun view other)

theorem Reaches.durable (run : Reaches before after) (durable : before.Durable) : after.Durable := by
  induction run with
  | refl => exact durable
  | tail _ step ih => exact step.durable ih

end Steps

section Missing

theorem Durable.saveIndex {manager : BlockManager} (durable : manager.Durable) : manager.saveIndex.Durable :=
  { durable.toWired.congr rfl rfl rfl rfl rfl rfl with
    backed := durable.backed, settled := durable.settled, accounted := durable.accounted
    logged := durable.logged, kept := durable.kept, clean := durable.clean }

theorem Durable.load_missing {manager : BlockManager} (durable : manager.Durable) {blockId : Nat}
    (outside : ¬ manager.InService blockId) :
    ∃ failure, manager.loadBlock blockId = (.error failure, manager.saveIndex) := by
  obtain ⟨unindexed, undescribed⟩ := durable.clean blockId outside
  have uncached : manager.getRead blockId = none := by
    cases found : manager.getRead blockId with
    | none => rfl
    | some ref => exact absurd (durable.served blockId ref ((durable.getRead_iff blockId ref).mp found)) outside
  obtain ⟨write, read⟩ := Option.or_eq_none_iff.mp uncached
  have marked : manager.markBlockCorrupted blockId = manager.saveIndex := by
    simp [markBlockCorrupted, BlockIndex.markCorrupted, removeCached, unindexed, undescribed, erase_absent _ _ write,
      erase_absent _ _ read]
  simp only [loadBlock, uncached, undescribed, marked]
  exact ⟨_, rfl⟩

end Missing

inductive Operation where
  | startNewBlock (blockId maxBlockSize : Nat)
  | beginWrite (call : WriteCall)
  | writeData (blockId : Nat) (change : File → File)
  | finishWriteRecord (blockId : Nat) (state : RecordState) (timestamp : Nat)
  | updateRecords (blockId : Nat) (records : List Record)
  | loadBlock (blockId : Nat)
  | finishBlock (blockId : Nat)
  | saveCacheOnDisk
  | saveCacheMetadataOnDisk
  | dropRead (blockIds : List Nat)

def apply (manager : BlockManager) : Operation → BlockManager
  | .startNewBlock blockId maxBlockSize => (manager.startNewBlock blockId maxBlockSize).2
  | .beginWrite call => (manager.beginWrite call).2
  | .writeData blockId change => manager.modifyData blockId change
  | .finishWriteRecord blockId state timestamp => (manager.finishWriteRecord blockId state timestamp).2
  | .updateRecords blockId records => (manager.updateRecords blockId records).2
  | .loadBlock blockId => (manager.loadBlock blockId).2
  | .finishBlock blockId =>
    match manager.loadBlock blockId with
    | (.ok ref, manager) => manager.finishBlock ref
    | (.error _, manager) => manager
  | .saveCacheOnDisk => manager.saveCacheOnDisk
  | .saveCacheMetadataOnDisk => manager.saveCacheMetadataOnDisk
  | .dropRead blockIds => manager.dropRead blockIds

def Fresh (manager : BlockManager) : Operation → Prop
  | .startNewBlock blockId _ => manager.blockIndex[blockId]? = none
  | _ => True

def Displacing (manager : BlockManager) : Operation → Prop
  | .beginWrite call => manager.displaces call = true
  | _ => False

theorem Durable.apply {manager : BlockManager} (durable : manager.Durable) (operation : Operation)
    (fresh : manager.Fresh operation) (kept : ¬ manager.Displacing operation) : (manager.apply operation).Durable := by
  have load (blockId : Nat) : (∃ failure, manager.loadBlock blockId = (.error failure, manager.saveIndex)) ∨
      ∃ ref after, manager.loadBlock blockId = (.ok ref, after) ∧ Loaded manager after blockId ref := by
    by_cases served : manager.InService blockId
    · exact Or.inr (durable.toSteady.load blockId served)
    · exact Or.inl (durable.load_missing served)
  cases operation with
  | startNewBlock blockId maxBlockSize =>
    have outside : ¬ manager.InService blockId := by
      rw [inService_iff, show manager.blockIndex[blockId]? = none from fresh]
      simp
    have uncached : manager.readCache[blockId]? = none := by
      cases read : manager.readCache[blockId]? with
      | none => rfl
      | some ref => exact absurd (durable.served blockId ref (Or.inr read)) outside
    refine durable.start blockId maxBlockSize uncached ?_
    simp [(durable.toSteady.view_none blockId).mpr outside]
  | beginWrite call =>
    exact (beginWrite_written durable.toSound call (Bool.eq_false_iff.mpr kept)).run.durable durable
  | writeData blockId change => exact (Primitive.write blockId change).durable durable
  | finishWriteRecord blockId state timestamp =>
    cases seen : manager.view blockId with
    | some block =>
      rcases durable.toSound.finishWriteRecord seen state timestamp with
        ⟨_, after, _, result, changed⟩ | ⟨_, after, _, result, loaded⟩
      · simpa only [BlockManager.apply, result] using changed.run.durable durable
      · simpa only [BlockManager.apply, result] using (Primitive.load loaded).durable durable
    | none =>
      have outside := (durable.toSteady.view_none blockId).mp seen
      have unwritten : manager.getWrite blockId = none := by
        cases found : manager.getWrite blockId with
        | none => rfl
        | some ref => exact absurd (durable.served blockId ref (Or.inl found)) outside
      obtain ⟨failure, result⟩ := durable.load_missing outside
      simpa only [BlockManager.apply, BlockManager.finishWriteRecord, blockToFinish, unwritten, result]
        using durable.saveIndex
  | updateRecords blockId records =>
    cases seen : manager.view blockId with
    | some block =>
      obtain ⟨after, result, changed⟩ := durable.toSound.updateRecords seen records
      simpa only [BlockManager.apply, result] using changed.run.durable durable
    | none =>
      obtain ⟨failure, result⟩ := durable.load_missing ((durable.toSteady.view_none blockId).mp seen)
      simpa only [BlockManager.apply, BlockManager.updateRecords, result] using durable.saveIndex
  | loadBlock blockId =>
    rcases load blockId with ⟨failure, result⟩ | ⟨ref, after, result, loaded⟩
    · simpa only [BlockManager.apply, result] using durable.saveIndex
    · simpa only [BlockManager.apply, result] using (Primitive.load loaded).durable durable
  | finishBlock blockId =>
    rcases load blockId with ⟨failure, result⟩ | ⟨ref, after, result, loaded⟩
    · simpa only [BlockManager.apply, result] using durable.saveIndex
    · simpa only [BlockManager.apply, result] using
        (Primitive.finish loaded.cached).durable ((Primitive.load loaded).durable durable)
  | saveCacheOnDisk => exact durable.toSound.saveCacheOnDisk.1.reaches.durable durable
  | saveCacheMetadataOnDisk => exact durable.toSound.saveCacheMetadataOnDisk.1.reaches.durable durable
  | dropRead blockIds => exact (Primitive.drop blockIds).durable durable

theorem durable_created (path bucket entry : String) (backendType : BackendType) (evictions : List (List Nat)) :
    (created path bucket entry backendType evictions).Durable := by
  have uncached (blockId : Nat) (ref : BlockRef) :
      ¬ (created path bucket entry backendType evictions).Cached blockId ref := by
    simp [Cached, created, build]
  have outside (blockId : Nat) : ¬ (created path bucket entry backendType evictions).InService blockId := by
    simp [inService_iff, created, build]
  have unseen (blockId : Nat) : (created path bucket entry backendType evictions).view blockId = none :=
    if_neg (outside blockId)
  refine { fresh := ?_, agree := ?_, named := ?_, titled := ?_, served := ?_, checked := ?_, backed := ?_, settled := ?_
           accounted := ?_, logged := ?_, kept := ?_, clean := ?_ }
  · exact fun blockId ref cached => absurd cached (uncached blockId ref)
  · exact fun blockId first _ cached => absurd cached (uncached blockId first)
  · exact fun blockId ref cached => absurd cached (uncached blockId ref)
  · simp [created, build]
  · exact fun blockId ref cached => absurd cached (uncached blockId ref)
  · simp [created, build]
  · exact fun blockId served => absurd served (outside blockId)
  · rintro blockId first second (⟨ref, cached, _⟩ | ⟨_, proto, found, _⟩)
    · exact absurd cached (uncached blockId ref)
    · simp [created, build] at found
  · simp [unseen]
  · intro blockId
    rw [visible, unseen, persisted, stored, logOf]
    simp [created, build, replay]
  · simp [logOf, created, build]
  · simp [created, build]

/-- In a run whose writes displace no block, the files of every block tell its finished records. -/
theorem finished_recoverable (path bucket entry : String) (backendType : BackendType) (evictions : List (List Nat))
    (manager : BlockManager)
    (run : Runs apply (fun current operation => current.Fresh operation ∧ ¬ current.Displacing operation)
      (created path bucket entry backendType evictions) manager)
    (blockId : Nat) (served : manager.InService blockId) :
    ∃ ref after, manager.loadBlock blockId = (.ok ref, after) ∧
      (manager.persisted blockId).finished = (after.heap ref).finished := by
  have durable := run.invariant Durable (durable_created path bucket entry backendType evictions)
    (fun current operation durable allowed => durable.apply operation allowed.1 allowed.2)
  obtain ⟨ref, after, result, loaded⟩ := durable.toSteady.load blockId served
  have seen := (loaded.steady durable.toSteady).cached_view loaded.cached
  rw [loaded.view durable.toSteady] at seen
  refine ⟨ref, after, result, ?_⟩
  rw [durable.logged, visible, seen, Option.getD_some]

end ReductStore.BlockManager

namespace ReductStore.BlockManager

def smallEntry : BlockManager := created "entry" "bucket" "entry" .filesystem []

def smallWrite (time contentSize : Nat) : WriteCall :=
  { settings := { maxBlockSize := 10, maxBlockRecords := 2 }, time, contentSize, contentType := "text/plain", labels := [] }

instance (manager : BlockManager) (operation : Operation) :
    Decidable (manager.Fresh operation ∧ ¬ manager.Displacing operation) := by
  cases operation <;> unfold Fresh Displacing <;> infer_instance

-- block 3 is saved after its first record; it leaves the write cache when block 7 starts, and then the read cache
def evictingRun : List Operation :=
  [.beginWrite (smallWrite 3 4), .finishWriteRecord 3 .finished 3, .saveCacheMetadataOnDisk, .beginWrite (smallWrite 5 4),
    .finishWriteRecord 3 .finished 5, .beginWrite (smallWrite 7 4), .dropRead [3]]

def evicting : BlockManager :=
  evictingRun.foldl apply (created "entry" "bucket" "entry" .filesystem (List.replicate 12 [3]))

theorem finished_recoverable_evicted :
    evicting.getRead 3 = none ∧ ([3, 5].all fun time => ((evicting.persisted 3).finished time).isSome) = true ∧
      ∃ ref after, evicting.loadBlock 3 = (.ok ref, after) ∧
        (evicting.persisted 3).finished = (after.heap ref).finished :=
  ⟨by decide +kernel, by decide +kernel, finished_recoverable "entry" "bucket" "entry" .filesystem _ _
    (.of_list evictingRun _ (by decide +kernel)) 3 (by unfold InService; decide +kernel)⟩

def displacedEntry : BlockManager :=
  (((smallEntry.apply (.startNewBlock 1 10)).apply (.beginWrite (smallWrite 3 4))).apply
    (.finishWriteRecord 1 .finished 3)).apply (.beginWrite (smallWrite 1 8))

theorem finished_not_recoverable :
    Runs apply Fresh smallEntry displacedEntry ∧ (displacedEntry.persisted 1).finished 3 ≠ none ∧
      ((displacedEntry.loadBlock 1).1.toOption.map fun ref =>
        ((displacedEntry.loadBlock 1).2.heap ref).finished 3) = some none := by
  refine ⟨?_, ?_, ?_⟩
  · have fresh : smallEntry.Fresh (.startNewBlock 1 10) := by
      show smallEntry.blockIndex[1]? = none
      decide +kernel
    exact .step (.step (.step (.step .start _ fresh) (.beginWrite (smallWrite 3 4)) trivial)
      (.finishWriteRecord 1 .finished 3) trivial) (.beginWrite (smallWrite 1 8)) trivial
  · decide +kernel
  · decide +kernel

end ReductStore.BlockManager
