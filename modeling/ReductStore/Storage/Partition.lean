import ReductStore.Shared.Machine
import ReductStore.Shared.Partition
import ReductStore.Storage.Durability
import ReductStore.Storage.RecordWriter

set_option autoImplicit false

namespace ReductStore

namespace Block

def times (block : Block) : Set Nat := { time | ∃ record, block.getRecord time = some record }

@[simp] theorem times_new (blockId : Nat) : (new blockId).times = ∅ := by simp [times]

@[simp] theorem times_insertOrUpdate [Codec] (block : Block) (record : Record) :
    (block.insertOrUpdateRecord record).times = insert record.timestamp block.times := by
  ext time
  by_cases same : time = record.timestamp <;> simp [times, same]

@[simp] theorem times_modifyRecord (block : Block) (timestamp : Nat) (update : Record → Record)
    (same : ∀ record, (update record).timestamp = record.timestamp) :
    (block.modifyRecord timestamp update same).times = block.times := by
  ext time
  by_cases equal : time = timestamp <;> simp [times, equal]

end Block

namespace BlockManager

def cells (manager : BlockManager) (blockId : Nat) : Option (Set Nat) := (manager.view blockId).map Block.times

theorem cells_update {before after : BlockManager} {blockId : Nat} {block : Block}
    (view : after.view = Function.update before.view blockId (some block)) :
    after.cells = Function.update before.cells blockId (some block.times) := by
  funext other
  by_cases same : other = blockId
  · simp [cells, view, same]
  · simp [cells, view, Function.update_of_ne same]

variable [Codec]

/-- The call is led to a full block that holds a later record. It would start a block in the midst of that one. -/
def splits (manager : BlockManager) (call : WriteCall) : Bool :=
  (manager.selected call).any (fun block => block.isFull call && block.isBelated call.time)

section Order

variable {manager after : BlockManager} {call : WriteCall} {blockId : Nat} {block : Block}

theorem cells_served (sound : manager.Sound) : (∃ held, manager.cells blockId = some held) ↔ manager.InService blockId := by
  cases seen : manager.view blockId with
  | none => simp [cells, seen, (sound.toSteady.view_none blockId).mp seen]
  | some block => simp [cells, seen, ((sound.toSteady.view_iff blockId block).mp seen).1]

theorem Selects.bounds (sound : manager.Sound) (partitioned : Partitioned manager.cells)
    (selects : manager.Selects call blockId block) :
    blockId ≤ call.time ∧ ∀ next, manager.InService next → blockId < next → call.time < next := by
  rcases selects.place with ⟨latest, belated⟩ | ⟨_, early, greatest⟩
  · obtain ⟨time, record, found⟩ := partitioned.inhabited blockId block.times (by simp [cells, selects.seen])
    have above := partitioned.above blockId block.times time (by simp [cells, selects.seen]) ⟨record, found⟩
    have below := before_of_not_belated (sound.accounted blockId block selects.seen) belated time record found
    refine ⟨by omega, fun next served later => ?_⟩
    have := latest.2 next served
    omega
  · refine ⟨early, fun next served later => ?_⟩
    by_contra reached
    have := greatest next served (Nat.not_lt.mp reached)
    omega

theorem Selects.unheld (sound : manager.Sound) (partitioned : Partitioned manager.cells)
    (selects : manager.Selects call blockId block) (other : Nat) (holder : Block)
    (seen : manager.view other = some holder) : call.time ∉ holder.times := by
  intro held
  obtain ⟨early, late⟩ := selects.bounds sound partitioned
  have found : manager.cells other = some holder.times := by simp [cells, seen]
  have selected : manager.cells blockId = some block.times := by simp [cells, selects.seen]
  have upper := partitioned.greatest found held selected early
  have lower := partitioned.above other holder.times call.time found held
  have served := ((sound.toSteady.view_iff other holder).mp seen).1
  have same : blockId = other := by
    by_contra different
    have := late other served (by omega)
    omega
  subst same
  obtain rfl := Option.some.inj (seen.symm.trans selects.seen)
  obtain ⟨record, present⟩ := held
  simp [selects.vacant] at present

theorem not_displaces (sound : manager.Sound) (partitioned : Partitioned manager.cells)
    (whole : manager.splits call = false) : manager.displaces call = false := by
  rw [Bool.eq_false_iff]
  intro displaced
  simp only [BlockManager.displaces, Bool.and_eq_true, decide_eq_true_eq, Option.any_eq_true] at displaced
  obtain ⟨served, block, selected, full⟩ := displaced
  obtain ⟨blockId, selects⟩ := sound.selects selected
  obtain ⟨early, late⟩ := selects.bounds sound partitioned
  have belated : block.isBelated call.time = false := by simpa [splits, selected, full] using whole
  have found : manager.cells blockId = some block.times := by simp [cells, selects.seen]
  obtain ⟨time, record, present⟩ := partitioned.inhabited blockId block.times found
  have above := partitioned.above blockId block.times time found ⟨record, present⟩
  have below := before_of_not_belated (sound.accounted blockId block selects.seen) belated time record present
  have := late call.time served (by omega)
  omega

theorem Outcome.partitioned (sound : manager.Sound) (partitioned : Partitioned manager.cells)
    (whole : manager.splits call = false) {result : Except ReductError WriteContext}
    (outcome : Outcome manager call result after) : Partitioned after.cells := by
  cases outcome with
  | fresh absent cause view =>
    rw [cells_update view]
    have times : (prepared (Block.new call.time) call).times = {call.time} := by
      simp [Block.prepareForWriting, Block.startedRecord]
    rw [times]
    refine partitioned.add fun other held item found member before => ?_
    have served := (cells_served sound).mp ⟨held, found⟩
    rcases cause with later | ⟨blockId, block, selects, full⟩
    · exact absurd (later other served) before.not_gt
    · obtain ⟨early, late⟩ := selects.bounds sound partitioned
      have selected : manager.cells blockId = some block.times := by simp [cells, selects.seen]
      have belated : block.isBelated call.time = false := by simpa [splits, selects.selected, full] using whole
      rcases Nat.lt_trichotomy other blockId with less | same | greater
      · exact (partitioned.below other blockId held block.times item found selected member less).trans_le early
      · subst same
        obtain rfl := Option.some.inj (selected.symm.trans found)
        obtain ⟨record, present⟩ := member
        exact before_of_not_belated (sound.accounted other block selects.seen) belated item record present
      · exact absurd (late other served greater) before.not_gt
  | within selects room view =>
    rw [cells_update view]
    have times : ∀ block, (prepared block call).times = insert call.time block.times := by
      simp [Block.prepareForWriting, Block.startedRecord]
    rw [times]
    obtain ⟨early, late⟩ := selects.bounds sound partitioned
    exact partitioned.insert (by simp [cells, selects.seen]) early fun next held found =>
      late next ((cells_served sound).mp ⟨held, found⟩)
  | @overwrite _ blockId block record covers seen found replaceable view =>
    rw [cells_update view, Block.times_insertOrUpdate]
    have cell : manager.cells blockId = some block.times := by simp [cells, seen]
    have stamped := Block.getRecord_timestamp found
    have held : (record.overwritten call).timestamp ∈ block.times := ⟨record, by rwa [← stamped] at found⟩
    exact partitioned.insert cell (partitioned.above blockId _ _ cell held) fun next other following before =>
      partitioned.below blockId next _ other _ cell following held before
  | refused covers seen found taken view => rwa [show after.cells = manager.cells by funext; simp [cells, view]]

theorem beginWrite_conflict (sound : manager.Sound) (partitioned : Partitioned manager.cells)
    (seen : manager.view blockId = some block) {record : Record} (found : block.getRecord call.time = some record)
    (valid : record.state ≠ .errored) : (manager.beginWrite call).1 = .error (alreadyExists call.time) := by
  have held : call.time ∈ block.times := ⟨record, found⟩
  have cell : manager.cells blockId = some block.times := by simp [cells, seen]
  have safe : manager.displaces call = false := by
    rw [Bool.eq_false_iff]
    intro displaced
    simp only [BlockManager.displaces, Bool.and_eq_true, Option.any_eq_true] at displaced
    obtain ⟨_, other, selected, _⟩ := displaced
    obtain ⟨otherId, selects⟩ := sound.selects selected
    exact selects.unheld sound partitioned blockId block seen held
  have outcome := (beginWrite_written sound call safe).outcome
  generalize (manager.beginWrite call).1 = result at outcome
  cases outcome with
  | fresh absent cause view =>
    rcases cause with later | ⟨_, _, selects, _⟩
    · have early := partitioned.above blockId block.times call.time cell held
      have := later blockId ((sound.toSteady.view_iff blockId block).mp seen).1
      omega
    · exact absurd held (selects.unheld sound partitioned blockId block seen)
  | within selects room view => exact absurd held (selects.unheld sound partitioned blockId block seen)
  | @overwrite _ other holder stored covers present stands replaceable view =>
    have same := partitioned.unique cell held (show manager.cells other = some holder.times by simp [cells, present])
      ⟨stored, stands⟩
    subst same
    obtain rfl := Option.some.inj (seen.symm.trans present)
    obtain rfl := Option.some.inj (found.symm.trans stands)
    simp [Record.isReplaceable, valid] at replaceable
  | refused covers present stands taken view => rfl

end Order

section Writes

structure Ordered (manager : BlockManager) : Prop extends Sound manager where
  partitioned : Partitioned manager.cells

variable {manager : BlockManager} {call : WriteCall}

theorem Ordered.writeRecord (ordered : manager.Ordered) (messages : List WriteChunk)
    (whole : manager.splits call = false) :
    (manager.writeRecord call messages).2.Ordered ∧
      (((manager.writeRecord call messages).1 = .error (alreadyExists call.time) ∧
          (manager.writeRecord call messages).2.view = manager.view) ∨
        ∃ context middle block record, manager.beginWrite call = (.ok context, middle) ∧
          (manager.writeRecord call messages).2.view = Function.update manager.view context.blockId (some block) ∧
          block.getRecord call.time = some record ∧
          context.contentSize = call.contentSize ∧
          record.state = writtenState (receive context middle 0 messages).1 ∧
          ∀ time old, time ≠ call.time → manager.view context.blockId = some old →
            block.getRecord time = old.getRecord time) := by
  have written := beginWrite_written ordered.toSound call (not_displaces ordered.toSound ordered.partitioned whole)
  rcases reply : manager.beginWrite call with ⟨result, middle⟩
  rw [reply] at written
  have middleSound := written.run.sound ordered.toSound
  have partitioned := written.outcome.partitioned ordered.toSound ordered.partitioned whole
  cases result with
  | error failure =>
    simp only [BlockManager.writeRecord, reply]
    refine ⟨{ middleSound with partitioned := partitioned }, Or.inl ?_⟩
    cases written.outcome with
    | refused covers seen found taken view => exact ⟨rfl, view⟩
  | ok context =>
    obtain ⟨block, opened⟩ := written.outcome.opened ordered.toSteady
    obtain ⟨record, held, _⟩ := opened.held
    have seen : middle.view context.blockId = some block := by
      rw [show middle.view = _ from opened.view, Function.update_self]
    obtain ⟨run, done, view⟩ := middleSound.runWriter context messages seen (by rw [opened.time]; exact held)
    simp only [BlockManager.writeRecord, reply]
    set state := writtenState (receive context middle 0 messages).1 with stateEq
    refine ⟨{ run.reaches.sound middleSound with partitioned := ?_ }, Or.inr ⟨context, middle,
      block.modifyRecord context.recordTimestamp (Record.withState state) (Record.timestamp_withState state),
      record.withState state, rfl, ?_, ?_, opened.size, rfl, ?_⟩⟩
    · have same : (middle.runWriter context messages).2.cells = middle.cells := by
        rw [cells_update view, Block.times_modifyRecord]
        exact Function.update_eq_self_iff.mpr (by simp [cells, seen])
      rwa [same]
    · rw [view, show middle.view = _ from opened.view, Function.update_idem]
    · rw [Block.getRecord_modifyRecord, opened.time, if_pos rfl, held]
      rfl
    · intro time old different before
      rw [Block.getRecord_modifyRecord, opened.time, if_neg different]
      exact opened.others time old different before

end Writes

section Runs

omit [Codec] in
theorem activeTree_created (path bucket entry : String) (backendType : BackendType) (evictions : List (List Nat)) :
    (created path bucket entry backendType evictions).blockIndex.activeTree = [] :=
  List.eq_nil_iff_forall_not_mem.mpr fun blockId served => by simp [BlockIndex.mem_activeTree, created, build] at served

omit [Codec] in
theorem view_created (path bucket entry : String) (backendType : BackendType) (evictions : List (List Nat)) :
    (created path bucket entry backendType evictions).view = fun _ => none := by
  funext blockId
  rw [view, activeTree_created, if_neg (by simp)]

theorem ordered_created (path bucket entry : String) (backendType : BackendType) (evictions : List (List Nat)) :
    (created path bucket entry backendType evictions).Ordered := by
  have empty (blockId : Nat) : (created path bucket entry backendType evictions).cells blockId = none := by
    rw [cells, view_created, Option.map_none]
  refine { (durable_created path bucket entry backendType evictions).toSound with partitioned := ⟨?_, ?_, ?_⟩ }
  · simp [empty]
  · simp [empty]
  · simp [empty]

structure Delivery where
  call : WriteCall
  chunks : List (List UInt8)

def Delivery.Exact (delivery : Delivery) : Prop :=
  (delivery.chunks.map List.length).sum = delivery.call.contentSize

structure Ledger where
  manager : BlockManager
  finished : List Nat

def Ledger.deliver (ledger : Ledger) (delivery : Delivery) : Ledger :=
  let (result, manager) := ledger.manager.writeRecord delivery.call (contentOf delivery.chunks)
  { manager, finished := if result.isOk then delivery.call.time :: ledger.finished else ledger.finished }

structure Ledger.Kept (ledger : Ledger) : Prop extends Ordered ledger.manager where
  kept : ∀ time ∈ ledger.finished, ∃ blockId block record, ledger.manager.view blockId = some block ∧
    block.getRecord time = some record ∧ record.state = .finished

theorem Ledger.Kept.deliver {ledger : Ledger} (kept : ledger.Kept) (delivery : Delivery) (exact_ : delivery.Exact)
    (whole : ledger.manager.splits delivery.call = false) : (ledger.deliver delivery).Kept := by
  obtain ⟨ordered, changes⟩ := kept.toOrdered.writeRecord (contentOf delivery.chunks) whole
  refine { toOrdered := ordered, kept := ?_ }
  rcases changes with ⟨refused, same⟩ | ⟨context, middle, block, record, started, view, found, size, state, others⟩
  · intro time member
    obtain ⟨blockId, block, record, seen, rest⟩ := kept.kept time (by simpa [Ledger.deliver, refused, Except.isOk, Except.toBool] using member)
    refine ⟨blockId, block, record, ?_, rest⟩
    rwa [show (ledger.deliver delivery).manager.view = _ from same]
  · have seen : (ledger.deliver delivery).manager.view context.blockId = some block := by
      rw [show (ledger.deliver delivery).manager.view = _ from view, Function.update_self]
    intro time member
    by_cases same : time = delivery.call.time
    · have complete := receive_exact context delivery.chunks middle 0 (by rw [size, Nat.zero_add, exact_])
      rw [complete] at state
      exact ⟨context.blockId, block, record, seen, same ▸ found, state⟩
    · have old : time ∈ ledger.finished := by
        simp only [Ledger.deliver] at member
        split_ifs at member
        · simpa [same] using member
        · exact member
      obtain ⟨blockId, before, stored, seenBefore, present, finished⟩ := kept.kept time old
      by_cases target : blockId = context.blockId
      · subst target
        exact ⟨_, block, stored, seen, (others time before same seenBefore).trans present, finished⟩
      · refine ⟨blockId, before, stored, ?_, present, finished⟩
        rw [show (ledger.deliver delivery).manager.view = _ from view, Function.update_of_ne target]
        exact seenBefore

/-- Every finished write is found where no write splits a block. -/
theorem finished_found (path bucket entry : String) (backendType : BackendType) (evictions : List (List Nat))
    (ledger : Ledger)
    (run : Runs Ledger.deliver
      (fun current delivery => delivery.Exact ∧ current.manager.splits delivery.call = false)
      { manager := created path bucket entry backendType evictions, finished := [] } ledger)
    (time : Nat) (finished : time ∈ ledger.finished) :
    ∃ blockId ref after record, ledger.manager.findBlockId time = .ok blockId ∧
      ledger.manager.loadBlock blockId = (.ok ref, after) ∧ (after.heap ref).getRecord time = some record ∧
      record.state = .finished := by
  have kept := run.invariant Ledger.Kept
    { toOrdered := ordered_created path bucket entry backendType evictions, kept := by simp }
    (fun current delivery kept allowed => kept.deliver delivery allowed.1 allowed.2)
  obtain ⟨blockId, block, record, seen, found, state⟩ := kept.kept time finished
  have served := ((kept.toSteady.view_iff blockId block).mp seen).1
  have cell : ledger.manager.cells blockId = some block.times := by simp [cells, seen]
  have covers : ledger.manager.Covers blockId time := by
    refine ⟨served, kept.partitioned.above blockId _ time cell ⟨record, found⟩, fun other inService early => ?_⟩
    obtain ⟨held, present⟩ := (cells_served kept.toSound).mpr inService
    exact kept.partitioned.greatest cell ⟨record, found⟩ present early
  obtain ⟨ref, after, result, loaded⟩ := kept.toSteady.load blockId served
  have content := (loaded.steady kept.toSteady).cached_view loaded.cached
  rw [loaded.view kept.toSteady, seen, Option.some.injEq] at content
  exact ⟨blockId, ref, after, record, (findBlockId_iff _ _ _).mpr covers, result, content ▸ found, state⟩

structure Transfer where
  call : WriteCall
  messages : List WriteChunk

def transfer (manager : BlockManager) (write : Transfer) : BlockManager :=
  (manager.writeRecord write.call write.messages).2

theorem timestamps_unique (path bucket entry : String) (backendType : BackendType) (evictions : List (List Nat))
    (manager : BlockManager)
    (run : Runs transfer (fun current write => current.splits write.call = false)
      (created path bucket entry backendType evictions) manager) :
    (∀ (time first second : Nat) (left right : Block), manager.view first = some left →
        manager.view second = some right → time ∈ left.times → time ∈ right.times → first = second) ∧
      ∀ (call : WriteCall) (blockId : Nat) (block : Block) (record : Record), manager.view blockId = some block →
        block.getRecord call.time = some record → record.state ≠ .errored →
        ∃ failure, (manager.beginWrite call).1 = .error failure ∧ failure.status = .conflict := by
  have ordered := run.invariant Ordered (ordered_created path bucket entry backendType evictions)
    (fun current write ordered whole => (ordered.writeRecord write.messages whole).1)
  refine ⟨?_, ?_⟩
  · intro time first second left right seenFirst seenSecond heldFirst heldSecond
    exact ordered.partitioned.unique (by simp [cells, seenFirst]) heldFirst (by simp [cells, seenSecond]) heldSecond
  · intro call blockId block record seen found valid
    exact ⟨_, beginWrite_conflict ordered.toSound ordered.partitioned seen found valid, rfl⟩

end Runs

end BlockManager

end ReductStore

namespace ReductStore.BlockManager

def smallDelivery (time : Nat) : Delivery := { call := smallWrite time 1, chunks := [[0]] }

def smallLedger : Ledger := { manager := smallEntry, finished := [] }

def sizedDelivery (time contentSize : Nat) : Delivery :=
  { call := smallWrite time contentSize, chunks := [List.replicate contentSize 0] }

instance (delivery : Delivery) : Decidable delivery.Exact := inferInstanceAs (Decidable (_ = _))

-- the record at 9 starts a second block, and the belated one at 7 goes to the first
def belatedLedger : Ledger := [sizedDelivery 5 6, sizedDelivery 9 6, sizedDelivery 7 1].foldl Ledger.deliver smallLedger

theorem finished_found_belated :
    belatedLedger.manager.findBlockId 9 = .ok 9 ∧
      ∃ blockId ref after record, belatedLedger.manager.findBlockId 7 = .ok blockId ∧
        belatedLedger.manager.loadBlock blockId = (.ok ref, after) ∧ (after.heap ref).getRecord 7 = some record ∧
        record.state = .finished :=
  ⟨by decide +kernel, finished_found "entry" "bucket" "entry" .filesystem [] _ (.of_list _ _ (by decide +kernel)) 7
    (by decide +kernel)⟩

def splitLedger : Ledger :=
  ((smallLedger.deliver (smallDelivery 1)).deliver (smallDelivery 3)).deliver (smallDelivery 2)

theorem finished_not_found :
    Runs Ledger.deliver (fun _ delivery => delivery.Exact) smallLedger splitLedger ∧ 3 ∈ splitLedger.finished ∧
      splitLedger.manager.findBlockId 3 = .ok 2 ∧
      ((splitLedger.manager.loadBlock 2).1.toOption.map fun ref =>
        ((splitLedger.manager.loadBlock 2).2.heap ref).getRecord 3) = some none := by
  have exact_ (time : Nat) : (smallDelivery time).Exact := rfl
  refine ⟨?_, ?_, ?_, ?_⟩
  · have first : Runs Ledger.deliver (fun _ delivery => delivery.Exact) smallLedger _ :=
      .step .start (smallDelivery 1) (exact_ 1)
    exact (first.step (smallDelivery 3) (exact_ 3)).step (smallDelivery 2) (exact_ 2)
  · decide +kernel
  · decide +kernel
  · decide +kernel

def smallTransfer (time : Nat) : Transfer := { call := smallWrite time 1, messages := contentOf [[0]] }

def belatedTransfers : List Transfer :=
  [sizedDelivery 5 6, sizedDelivery 9 6, sizedDelivery 7 1].map fun delivery =>
    { call := delivery.call, messages := contentOf delivery.chunks }

def belatedEntry : BlockManager := belatedTransfers.foldl transfer smallEntry

theorem timestamps_unique_belated :
    [5, 7, 9].map (fun time => (belatedEntry.findBlockId time).toOption) = [some 5, some 5, some 9] ∧
      (∀ (time first second : Nat) (left right : Block), belatedEntry.view first = some left →
        belatedEntry.view second = some right → time ∈ left.times → time ∈ right.times → first = second) ∧
      ∀ (call : WriteCall) (blockId : Nat) (block : Block) (record : Record), belatedEntry.view blockId = some block →
        block.getRecord call.time = some record → record.state ≠ .errored →
        ∃ failure, (belatedEntry.beginWrite call).1 = .error failure ∧ failure.status = .conflict :=
  ⟨by decide +kernel, timestamps_unique "entry" "bucket" "entry" .filesystem [] _
    (.of_list belatedTransfers _ (by decide +kernel))⟩

def splitEntry : BlockManager :=
  ((smallEntry.transfer (smallTransfer 1)).transfer (smallTransfer 3)).transfer (smallTransfer 2)

theorem timestamps_not_unique :
    Runs transfer (fun _ _ => True) smallEntry splitEntry ∧
      ((splitEntry.view 1).bind fun block => (block.getRecord 3).map Record.state) = some .finished ∧
      (splitEntry.beginWrite (smallWrite 3 1)).1.isOk = true ∧
      ((splitEntry.transfer (smallTransfer 3)).view 1).any (fun block => (block.getRecord 3).isSome) = true ∧
      ((splitEntry.transfer (smallTransfer 3)).view 2).any (fun block => (block.getRecord 3).isSome) = true := by
  refine ⟨?_, ?_, ?_, ?_, ?_⟩
  · exact .step (.step (.step .start (smallTransfer 1) trivial) (smallTransfer 3) trivial) (smallTransfer 2) trivial
  · decide +kernel
  · decide +kernel
  · decide +kernel
  · decide +kernel

end ReductStore.BlockManager
