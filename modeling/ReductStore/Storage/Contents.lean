import ReductStore.Query.Scan
import ReductStore.Storage.CompactedWriters
import ReductStore.Storage.EntryInfo
import ReductStore.Storage.WriterHandle

set_option autoImplicit false

namespace ReductStore

def RecordReader.content (reader : RecordReader) (manager : BlockManager) : List UInt8 :=
  reader.file.elim [] fun blockId =>
    File.range (manager.dataOf blockId) reader.offset (reader.offset + reader.contentSize)

namespace BlockManager

def findCachedBlock (manager : BlockManager) (start : Nat) : Option BlockRef :=
  (manager.findBlockId start).toOption.bind manager.getRead

variable [Codec]

def findRecordForRead (manager : BlockManager) (time : Nat) : Except ReductError (BlockRef × Record) × BlockManager :=
  match manager.findBlock time with
  | (.error failure, manager) => (.error failure, manager)
  | (.ok ref, manager) =>
    match (manager.heap ref).getRecord time with
    | none =>
      (.error (notFound ("Record " ++ toString time ++ " not found in block " ++ manager.bucket ++ "/" ++ manager.entry ++
        "/" ++ toString (manager.heap ref).blockId)), manager)
    | some record => (.ok (ref, record), manager)

def openRecord (manager : BlockManager) (time : Nat) (ref : BlockRef) (record : Record) : Except ReductError RecordReader :=
  let name := "Record with timestamp " ++ toString time ++ " in " ++ manager.bucket ++ "/" ++ manager.entry
  match record.state with
  | .started => .error { status := .tooEarly, message := name ++ " is still being written" }
  | .errored => .error (internalServerError (name ++ " is broken"))
  | _ => RecordReader.tryNew manager ref time none

/-- `Entry::begin_read`: a cached block is tried under the shared lock first. -/
def beginRead (manager : BlockManager) (time : Nat) : Except ReductError RecordReader × BlockManager :=
  match (manager.findCachedBlock time).bind fun ref => ((manager.heap ref).getRecord time).map fun record => (ref, record) with
  | some (ref, record) => (manager.openRecord time ref record, manager)
  | none =>
    match manager.findRecordForRead time with
    | (.error failure, manager) => (.error failure, manager)
    | (.ok (ref, record), manager) => (manager.openRecord time ref record, manager)

def ReadsBack (manager : BlockManager) (time : Nat) : Option (List UInt8) → Prop
  | some bytes => ∃ reader, (manager.beginRead time).1 = .ok reader ∧ reader.recordMeta.timestamp = time ∧
    reader.content (manager.beginRead time).2 = bytes
  | none => ∃ failure, (manager.beginRead time).1 = .error failure

def stateAt (manager : BlockManager) (blockId time : Nat) : Option RecordState :=
  (manager.view blockId).bind fun block => (block.getRecord time).map Record.state

/-- The entry as a map from the timestamps of its finished records to their contents. -/
structure Serves (manager : BlockManager) (stored : Nat → Option (List UInt8)) : Prop extends Stocked manager where
  partitioned : Partitioned manager.cells
  kept : ∀ time bytes, stored time = some bytes →
    ∃ blockId, manager.stateAt blockId time = some .finished ∧ manager.Carries blockId time bytes.length bytes
  known : ∀ blockId time state, manager.stateAt blockId time = some state →
    state = .started ∨ state = .errored ∨ stored time ≠ none

variable {manager after : BlockManager} {stored : Nat → Option (List UInt8)} {blockId time : Nat} {state : RecordState}

omit [Codec] in
theorem stateAt_iff : manager.stateAt blockId time = some state ↔
    ∃ block record, manager.view blockId = some block ∧ block.getRecord time = some record ∧ record.state = state := by
  simp [stateAt, Option.bind_eq_some_iff]

theorem Serves.same (serves : manager.Serves stored) (unchanged : WriterRun manager after ∧
    after.view = manager.view ∧ after.disk.data = manager.disk.data) : after.Serves stored :=
  have ⟨run, view, data⟩ := unchanged
  { serves.toStocked.same run.reaches view with
    partitioned := cells_congr view ▸ serves.partitioned
    kept := fun time bytes is => by
      obtain ⟨blockId, finished, carries⟩ := serves.kept time bytes is
      exact ⟨blockId, by rwa [stateAt, view], carries.quiet view data⟩
    known := fun blockId time state is => serves.known blockId time state (by rwa [stateAt, view] at is) }

omit [Codec] in
theorem Carries.elsewhere {bytes : List UInt8} (carries : manager.Carries blockId time bytes.length bytes)
    (view : after.view blockId = manager.view blockId) (data : after.disk.data[blockId]? = manager.disk.data[blockId]?) :
    after.Carries blockId time bytes.length bytes := by
  obtain ⟨block, record, seen, found, size, holds⟩ := carries
  exact ⟨block, record, view.trans seen, found, size, by rwa [dataOf, data]⟩

section Write

theorem Outcome.stateAt_or {call : WriteCall} {result : Except ReductError WriteContext}
    (outcome : Outcome manager call result after) (is : after.stateAt blockId time = some state) :
    state = .started ∨ manager.stateAt blockId time = some state := by
  obtain ⟨block, record, seen, found, rfl⟩ := stateAt_iff.mp is
  have changed (target : Nat) (base : Block) (added : Record) (begun : added.state = .started)
      (view : after.view = Function.update manager.view target (some (base.insertOrUpdateRecord added)))
      (old : base.getRecord time = some record → manager.view target = some base) :
      record.state = .started ∨ manager.stateAt blockId time = some record.state := by
    rw [view] at seen
    by_cases same : blockId = target
    · subst same
      rw [Function.update_self, Option.some.injEq] at seen
      subst seen
      rw [Block.getRecord_insertOrUpdate] at found
      split_ifs at found
      · exact Or.inl (Option.some.inj found ▸ begun)
      · exact Or.inr (stateAt_iff.mpr ⟨base, record, old found, found, rfl⟩)
    · rw [Function.update_of_ne same] at seen
      exact Or.inr (stateAt_iff.mpr ⟨block, record, seen, found, rfl⟩)
  cases outcome with
  | fresh absent cause view => exact changed _ _ _ rfl view fun found => by simp at found
  | within selects room view => exact changed _ _ _ rfl view fun _ => selects.seen
  | overwrite covers seen found replaceable view => exact changed _ _ _ rfl view fun _ => seen
  | refused covers old _ taken view =>
    rw [view] at seen
    exact Or.inr (stateAt_iff.mpr ⟨block, record, seen, found, rfl⟩)

theorem Serves.begin (serves : manager.Serves stored) {call : WriteCall} (whole : manager.splits call = false) :
    (manager.beginWrite call).2.Serves stored := by
  have written := beginWrite_written serves.toSound call (not_displaces serves.toSound serves.partitioned whole)
  refine
    { serves.toStocked.written written with
      partitioned := written.outcome.partitioned serves.toSound serves.partitioned whole
      kept := fun time bytes is => ?_
      known := fun blockId time state is => ?_ }
  · obtain ⟨blockId, finished, block, record, seen, found, size, holds⟩ := serves.kept time bytes is
    have own : record.state = .finished := by simpa [stateAt, seen, found] using finished
    obtain ⟨later, view, present⟩ := serves.toStocked.keeps written seen found (by simp [own])
    have layout := (serves.filled blockId block seen).toLayout
    have ordered := layout.ordered time record found
    refine ⟨blockId, stateAt_iff.mpr ⟨later, record, view, present, own⟩, later, record, view, present, size,
      holds.kept fun index first last byte read => written.data.bytes seen layout found index ?_ byte read⟩
    rw [Record.length] at size
    exact ⟨first, by omega⟩
  · rcases written.outcome.stateAt_or is with started | before
    · exact Or.inl started
    · exact serves.known blockId time state before

omit [Codec] in
theorem receive_outside (context : WriteContext) (messages : List WriteChunk) (manager : BlockManager) (written : Nat) :
    let after := (receive context manager written messages).2
    (∀ other : Nat, other ≠ context.blockId → after.disk.data[other]? = manager.disk.data[other]?) ∧
      ∀ index byte, index < context.offset ∨ context.offset + context.contentSize ≤ index →
        (manager.dataOf context.blockId)[index]? = some byte → (after.dataOf context.blockId)[index]? = some byte := by
  induction messages generalizing manager written with
  | nil => exact ⟨fun _ _ => rfl, fun _ _ _ found => found⟩
  | cons message rest ih =>
    rcases message with failure | _ | chunk
    · exact ⟨fun _ _ => rfl, fun _ _ _ found => found⟩
    · exact ⟨fun _ _ => rfl, fun _ _ _ found => found⟩
    · simp only [receive, receiveChunk]
      by_cases large : written + chunk.length > context.contentSize
      · simp only [if_pos large]
        exact ⟨fun _ _ => trivial, fun _ _ _ found => found⟩
      · simp only [if_neg large]
        obtain ⟨others, outside⟩ := ih (manager.modifyData context.blockId
          (File.writeAt · (context.offset + (written + chunk.length) - chunk.length) chunk)) (written + chunk.length)
        refine ⟨fun other different => (others other different).trans (by simp [modifyData, different]), ?_⟩
        refine fun index byte apart found => outside index byte apart ?_
        rw [dataOf_modifyData, ← found]
        exact File.get_writeAt_outside _ _ _ _ (List.getElem?_eq_some_iff.mp found).1 (by omega)

section Writer

variable {context : WriteContext} (messages : List WriteChunk) {block : Block} {record : Record}
  (stocked : manager.Stocked) (seen : manager.view context.blockId = some block)
  (found : block.getRecord context.recordTimestamp = some record)

include stocked seen found

theorem runWriter_view : (manager.runWriter context messages).2.view = Function.update manager.view context.blockId
    (some (block.modifyRecord context.recordTimestamp (Record.withState (context.deserved messages))
      (Record.timestamp_withState _))) := by
  rw [(stocked.toSound.runWriter context messages seen found).2.2, writtenState_receive]

theorem runWriter_data :
    (manager.runWriter context messages).2.disk.data = (receive context manager 0 messages).2.disk.data := by
  obtain ⟨received, view⟩ := stocked.toSound.receive context 0 messages
  have middle := stocked.same received.reaches view
  rcases middle.toSound.finishWriteRecord (view ▸ seen) (writtenState (receive context manager 0 messages).1)
    context.recordTimestamp with ⟨_, after, _, done, changed⟩ | ⟨_, _, absent, _, _⟩
  · have result : manager.runWriter context messages = (.ok (), after) := done
    rw [result, changed.data]
  · rw [found] at absent
    cases absent

theorem runWriter_stateAt (other moment : Nat) : (manager.runWriter context messages).2.stateAt other moment =
    if other = context.blockId ∧ moment = context.recordTimestamp then some (context.deserved messages)
    else manager.stateAt other moment := by
  rw [stateAt, stateAt, runWriter_view messages stocked seen found]
  by_cases own : other = context.blockId
  · subst own
    by_cases mine : moment = context.recordTimestamp
    · simp [mine, Block.getRecord_modifyRecord, found, Record.withState]
    · simp [mine, Block.getRecord_modifyRecord, seen]
  · simp [own]

theorem runWriter_others {other moment : Nat} {bytes : List UInt8} (begins : record.beginPos = context.offset)
    (size : record.length = context.contentSize) (different : moment ≠ context.recordTimestamp)
    (carries : manager.Carries other moment bytes.length bytes) :
    (manager.runWriter context messages).2.Carries other moment bytes.length bytes := by
  have view := runWriter_view messages stocked seen found
  have data := runWriter_data messages stocked seen found
  obtain ⟨others, outside⟩ := receive_outside context messages manager 0
  by_cases own : other = context.blockId
  · subst own
    obtain ⟨_, stored, before, held, whole, holds⟩ := carries
    obtain rfl := Option.some.inj (seen.symm.trans before)
    refine ⟨_, stored, by rw [view, Function.update_self], by simp [Block.getRecord_modifyRecord, different, held], whole,
      holds.kept fun index first last byte read => ?_⟩
    -- the writer stays inside its own record, which is apart from this one
    have apart := (stocked.filled _ block seen).disjoint _ _ stored record different held found
    have ordered := (stocked.filled _ block seen).ordered _ record found
    rw [Record.range, Record.range, Set.Ico_disjoint_Ico] at apart
    rw [Record.length] at whole size
    rw [dataOf, data]
    exact outside index byte (by omega) read
  · exact carries.elsewhere (by rw [view, Function.update_of_ne own]) (by rw [data, others other own])

theorem runWriter_own (begins : record.beginPos = context.offset) (size : record.length = context.contentSize)
    (done : context.deserved messages = .finished) :
    (manager.runWriter context messages).2.Carries context.blockId context.recordTimestamp
      (deliveredChunks messages).flatten.length (deliveredChunks messages).flatten := by
  have complete : endsInFailure messages = false ∧ (deliveredChunks messages).flatten.length = context.contentSize := by
    simpa [WriteContext.deserved] using done
  have accepted := (receive_state context manager 0 messages (Nat.zero_le _)).mpr ⟨complete.1, by omega⟩
  refine ⟨_, record.withState _, by rw [runWriter_view messages stocked seen found, Function.update_self],
    by rw [Block.getRecord_modifyRecord, if_pos rfl, found]; rfl, by rw [complete.2, ← size]; rfl, ?_⟩
  rw [File.Holds, dataOf, runWriter_data messages stocked seen found, complete.2]
  exact begins ▸ receive_range context manager messages accepted

end Writer

omit [Codec] in
theorem mem_cells (is : manager.stateAt blockId time = some state) :
    ∃ held, manager.cells blockId = some held ∧ time ∈ held := by
  obtain ⟨block, record, seen, found, -⟩ := stateAt_iff.mp is
  exact ⟨block.times, by rw [cells, seen]; rfl, record, found⟩

theorem Serves.unique (serves : manager.Serves stored) {other : Nat} {second : RecordState}
    (is : manager.stateAt blockId time = some state) (also : manager.stateAt other time = some second) :
    blockId = other := by
  obtain ⟨held, cell, member⟩ := mem_cells is
  obtain ⟨again, present, shared⟩ := mem_cells also
  exact serves.partitioned.unique cell member present shared

def recorded (stored : Nat → Option (List UInt8)) (write : Transfer) :
    Except ReductError WriteContext → Nat → Option (List UInt8)
  | .error _ => stored
  | .ok context =>
    if context.deserved write.messages = .finished then
      Function.update stored context.recordTimestamp (some (deliveredChunks write.messages).flatten)
    else stored

theorem Serves.runWriter (serves : manager.Serves stored) {context : WriteContext} {write : Transfer} {block : Block} {record : Record}
    (seen : manager.view context.blockId = some block) (found : block.getRecord context.recordTimestamp = some record)
    (begins : record.beginPos = context.offset) (size : record.length = context.contentSize)
    (started : record.state = .started) :
    (manager.runWriter context write.messages).2.Serves (recorded stored write (.ok context)) := by
  have served := (serves.toSteady.served_iff context.blockId).mpr ⟨block, seen⟩
  have states := runWriter_stateAt write.messages serves.toStocked seen found
  have fresh : stored context.recordTimestamp = none := by
    have begun : manager.stateAt context.blockId context.recordTimestamp = some .started :=
      stateAt_iff.mpr ⟨block, record, seen, found, started⟩
    -- a stored record is finished, and a time has one place
    by_contra present
    obtain ⟨bytes, is⟩ := Option.ne_none_iff_exists'.mp present
    obtain ⟨other, finished, -⟩ := serves.kept _ bytes is
    rw [← serves.unique begun finished, begun] at finished
    cases finished
  refine
    { serves.toStocked.runWriter context write.messages served with
      partitioned := ?_, kept := fun moment bytes is => ?_, known := fun other moment state is => ?_ }
  · rw [cells_update (runWriter_view write.messages serves.toStocked seen found), Block.times_modifyRecord,
      Function.update_eq_self_iff.mpr (by simp [cells, seen])]
    exact serves.partitioned
  · rw [recorded] at is
    by_cases mine : moment = context.recordTimestamp
    · subst mine
      split_ifs at is with done
      · obtain rfl : _ = bytes := by simpa using is
        exact ⟨context.blockId, by rw [states, if_pos ⟨rfl, rfl⟩, done],
          runWriter_own write.messages serves.toStocked seen found begins size done⟩
      · rw [fresh] at is
        cases is
    · have before : stored moment = some bytes := by
        split_ifs at is <;> simpa [mine] using is
      obtain ⟨other, finished, carries⟩ := serves.kept moment bytes before
      exact ⟨other, by rwa [states, if_neg fun both => mine both.2],
        runWriter_others write.messages serves.toStocked seen found begins size mine carries⟩
  · rw [states] at is
    rw [recorded]
    split_ifs at is with own
    · obtain rfl := Option.some.inj is
      by_cases done : context.deserved write.messages = .finished
      · exact Or.inr (Or.inr (by simp [done, own.2]))
      · exact Or.inr (Or.inl ((ite_eq_or_eq _ _ _).resolve_left done))
    · refine (serves.known other moment state is).imp_right (Or.imp_right fun present => ?_)
      split_ifs
      · by_cases mine : moment = context.recordTimestamp <;> simp [mine, present]
      · exact present

theorem Serves.transfer (serves : manager.Serves stored) (write : Transfer) (whole : manager.splits write.call = false) :
    (manager.transfer write).Serves (recorded stored write (manager.beginWrite write.call).1) := by
  have written := beginWrite_written serves.toSound write.call (not_displaces serves.toSound serves.partitioned whole)
  have begun := serves.begin whole
  rw [BlockManager.transfer, writeRecord]
  rcases reply : manager.beginWrite write.call with ⟨failure | context, middle⟩
  · rw [reply] at begun
    exact begun
  · rw [reply] at begun written
    obtain ⟨block, opened⟩ := written.outcome.opened serves.toSteady
    obtain ⟨record, held, begins, size, started⟩ := opened.held
    have view : middle.view context.blockId = some block := by
      rw [show middle.view = _ from opened.view, Function.update_self]
    exact begun.runWriter view (by rw [opened.time]; exact held) begins size started

end Write

section Remove

theorem Serves.findBlockId (serves : manager.Serves stored) (is : manager.stateAt blockId time = some state) :
    manager.findBlockId time = .ok blockId := by
  obtain ⟨block, record, seen, found, -⟩ := stateAt_iff.mp is
  obtain ⟨held, cell, member⟩ := mem_cells is
  refine (findBlockId_iff _ _ _).mpr ⟨(serves.toSteady.served_iff blockId).mpr ⟨block, seen⟩,
    serves.partitioned.above blockId held time cell member, fun other inService early => ?_⟩
  obtain ⟨again, present⟩ := (cells_served serves.toSound).mpr inService
  exact serves.partitioned.greatest cell member present early

omit [Codec] in
theorem state_compact (block : Block) (time : Nat) :
    (block.compact.getRecord time).map Record.state = (block.getRecord time).map Record.state := by
  cases found : block.getRecord time with
  | some record =>
    obtain ⟨first, last, placed⟩ := Block.newPositions_present block time record found
    rw [(Block.getRecord_compact block time _).mpr ⟨record, first, last, found, placed, rfl⟩]
    rfl
  | none =>
    cases moved : block.compact.getRecord time with
    | none => rfl
    | some record =>
      obtain ⟨old, -, -, present, -⟩ := (Block.getRecord_compact block time record).mp moved
      rw [found] at present
      cases present

theorem Removes.stateAt {block : Block} {file : File} {times : List Nat} (stocked : manager.Stocked)
    (seen : manager.view blockId = some block) (removes : Removes manager blockId (retained block times) file after)
    (unmarked : ¬ after.Lost blockId) (other time : Nat) : after.stateAt other time =
      if other = blockId ∧ time ∈ times then none else manager.stateAt other time := by
  have accounted := accounted_retained times (stocked.accounted blockId block seen)
  obtain ⟨result, outcome⟩ := removes.outcome
  by_cases same : other = blockId
  · subst same
    have old : (retained block times).getRecord time = if time ∈ times then none else block.getRecord time :=
      getRecord_retained ..
    cases outcome with
    | emptied empty view =>
      have none : (retained block times).getRecord time = none :=
        Option.eq_none_iff_forall_not_mem.mpr fun record found => accounted.occupied.mp ⟨time, record, found⟩ empty
      rw [none] at old
      split_ifs at old with removed <;> simp [BlockManager.stateAt, view, seen, removed, ← old]
    | damaged kept short view => exact absurd (removes.lost.mpr ⟨kept, short⟩) unmarked
    | compacted tail kept readable view data =>
      simp only [BlockManager.stateAt, view, Function.update_self, Option.bind_some, state_compact, old, seen, true_and]
      split_ifs <;> rfl
  · have view : after.view other = manager.view other := by
      cases outcome <;> simp_all
    simp [BlockManager.stateAt, view, same]

def without (manager : BlockManager) (removed : Nat → Nat → Bool) (stored : Nat → Option (List UInt8)) (time : Nat) :
    Option (List UInt8) :=
  if (manager.findBlockId time).toOption.any (removed · time) then none else stored time

theorem Serves.restrict (serves : manager.Serves stored) (stocked : after.Stocked) {removed : Nat → Nat → Bool}
    (states : ∀ other time, after.stateAt other time = if removed other time then none else manager.stateAt other time)
    (carried : ∀ other time bytes, ¬ removed other time → after.stateAt other time = some .finished →
      manager.Carries other time bytes.length bytes → after.Carries other time bytes.length bytes) :
    after.Serves (manager.without removed stored) := by
  have found (other time : Nat) (state : RecordState) (is : after.stateAt other time = some state) :
      ¬ removed other time ∧ manager.stateAt other time = some state := by
    rw [states] at is
    split_ifs at is with gone
    exact ⟨gone, is⟩
  -- `find_block_id` leads to the block that has the record
  have located (other time : Nat) (state : RecordState) (is : manager.stateAt other time = some state) :
      manager.without removed stored time = if removed other time then none else stored time := by
    simp [without, serves.findBlockId is, Except.toOption]
  refine { stocked with partitioned := ?_, kept := fun time bytes is => ?_, known := fun other time state is => ?_ }
  · refine serves.partitioned.restrict fun other cell is => ?_
    obtain ⟨left, view, rfl⟩ := Option.map_eq_some_iff.mp is
    have before (time : Nat) (held : time ∈ left.times) : ∃ whole, manager.cells other = some whole ∧ time ∈ whole := by
      obtain ⟨record, present⟩ := held
      exact mem_cells (found other time record.state (stateAt_iff.mpr ⟨left, record, view, present, rfl⟩)).2
    obtain ⟨time, record, present⟩ := (stocked.filled other left view).occupied
    obtain ⟨whole, cell, -⟩ := before time ⟨record, present⟩
    refine ⟨⟨time, record, present⟩, whole, cell, fun moment held => ?_⟩
    obtain ⟨again, same, member⟩ := before moment held
    exact Option.some.inj (cell.symm.trans same) ▸ member
  · have present : stored time = some bytes := (ite_eq_iff.mp is).elim (fun gone => nomatch gone.2) And.right
    obtain ⟨other, finished, carries⟩ := serves.kept time bytes present
    rw [located other time _ finished] at is
    have left : ¬ removed other time := fun gone => by simp [gone] at is
    have still : after.stateAt other time = some .finished := by rw [states, if_neg left, finished]
    exact ⟨other, still, carried other time bytes left still carries⟩
  · obtain ⟨left, before⟩ := found other time state is
    rw [located other time state before, if_neg left]
    exact serves.known other time state before

theorem Serves.remove (serves : manager.Serves stored) {times : List Nat} (served : manager.InService blockId)
    (unmarked : ¬ (manager.removeRecords blockId times).2.Lost blockId) : (manager.removeRecords blockId times).2.Serves
      (manager.without (fun other time => other = blockId ∧ time ∈ times) stored) := by
  obtain ⟨block, seen⟩ := (serves.toSteady.served_iff blockId).mp served
  obtain ⟨file, data, removes⟩ := serves.toStocked.removes seen times
  have stocked := serves.toStocked.removeRecords blockId times served
  have states := removes.stateAt serves.toStocked seen unmarked
  refine serves.restrict stocked (by simpa using states) fun other time bytes left still carries => ?_
  simp only [decide_eq_true_eq] at left
  by_cases same : other = blockId
  · subst same
    obtain ⟨later, record, view, -⟩ := stateAt_iff.mp still
    exact carries.removed le_rfl (fun removed => left ⟨rfl, removed⟩) seen data removes (by simp [view])
  · refine carries.elsewhere ?_ (removes.data other same)
    obtain ⟨result, outcome⟩ := removes.outcome
    cases outcome <;> simp_all

theorem Serves.evict (serves : manager.Serves stored) (blockId : Nat) :
    (manager.removeBlock blockId).Serves (manager.without (fun other _ => other = blockId) stored) := by
  have isolated : Isolated manager manager blockId := ⟨fun _ _ _ _ => rfl, rfl, rfl, rfl, rfl, rfl⟩
  have view := (isolated.forget_removed.steady serves.toSteady).2
  refine serves.restrict (serves.toStocked.removeBlock blockId) (fun other time => ?_) fun other time bytes left _ carries => ?_
  · by_cases same : other = blockId <;> simp [stateAt, show (manager.removeBlock blockId).view = _ from view, same]
  · have different : other ≠ blockId := by simpa using left
    refine carries.elsewhere ?_ ?_
    · rw [show (manager.removeBlock blockId).view = _ from view, Function.update_of_ne different]
    · simp [removeBlock, walRemove, removeCached, saveIndex, removeBlockFiles, walAppend, different]

end Remove

section Read

theorem Serves.locate (serves : manager.Serves stored) (time : Nat) :
    ∃ after, Quiet manager after ∧
      ((∃ blockId ref record, manager.beginRead time = (after.openRecord time ref record, after) ∧
          after.view blockId = some (after.heap ref) ∧ (after.heap ref).getRecord time = some record) ∨
        (∃ failure, manager.beginRead time = (.error failure, after)) ∧ ∀ blockId, manager.stateAt blockId time = none) := by
  rw [beginRead]
  have idle : Quiet manager manager := ⟨.refl, rfl, rfl, rfl⟩
  cases led : manager.findBlockId time with
  | error failure =>
    refine ⟨manager, idle, Or.inr ⟨⟨failure, by simp [findCachedBlock, led, findRecordForRead, findBlock, Except.toOption]⟩, ?_⟩⟩
    refine fun blockId => Option.eq_none_iff_forall_ne_some.mpr fun state is => ?_
    rw [serves.findBlockId is] at led
    cases led
  | ok blockId =>
    have served := ((findBlockId_iff _ _ _).mp led).1
    split
    · rename_i ref record cached
      simp only [findCachedBlock, led, Except.toOption, Option.bind_some, Option.bind_eq_some_iff, Option.map_eq_some_iff,
        Prod.mk.injEq] at cached
      obtain ⟨ref, hit, record, found, rfl, rfl⟩ := cached
      have cached : manager.Cached blockId ref := by
        rcases Option.or_eq_some_iff.mp hit with write | ⟨-, read⟩
        · exact Or.inl write
        · exact Or.inr read
      exact ⟨manager, idle, Or.inl ⟨blockId, ref, record, rfl, serves.toSteady.cached_view cached, found⟩⟩
    · obtain ⟨ref, after, result, loaded⟩ := serves.toSteady.load blockId served
      have quiet := loaded.quiet serves.toSteady
      have view := (loaded.steady serves.toSteady).cached_view loaded.cached
      refine ⟨after, quiet, ?_⟩
      simp only [findRecordForRead, findBlock, led, result]
      cases found : (after.heap ref).getRecord time with
      | some record => exact Or.inl ⟨blockId, ref, record, rfl, view, found⟩
      | none =>
        refine Or.inr ⟨⟨_, rfl⟩, fun other => Option.eq_none_iff_forall_ne_some.mpr fun state is => ?_⟩
        obtain rfl := Except.ok.inj (led.symm.trans (serves.findBlockId is))
        simp [stateAt, ← quiet.view, view, found] at is

theorem Serves.read (serves : manager.Serves stored) (time : Nat) :
    (manager.beginRead time).2.Serves stored ∧ manager.ReadsBack time (stored time) := by
  unfold ReadsBack
  obtain ⟨after, quiet, ⟨blockId, ref, record, result, view, found⟩ | ⟨⟨failure, result⟩, absent⟩⟩ := serves.locate time
  · have later := serves.same ⟨quiet.steps, quiet.view, by rw [quiet.disk]⟩
    have is : after.stateAt blockId time = some record.state := stateAt_iff.mpr ⟨_, record, view, found, rfl⟩
    rw [result]
    refine ⟨later, ?_⟩
    cases present : stored time with
    | some bytes =>
      obtain ⟨other, finished, _, own, seen, held, size, holds⟩ := later.kept time bytes present
      obtain rfl := later.unique is finished
      obtain rfl := Option.some.inj (view.symm.trans seen)
      obtain rfl := Option.some.inj (found.symm.trans held)
      obtain ⟨file, data⟩ := later.present blockId ((later.toSteady.served_iff blockId).mpr ⟨_, view⟩)
      have name := later.toSteady.view_named view
      have state : record.state = .finished := Option.some.inj (is.symm.trans finished)
      simp only [openRecord, state, RecordReader.tryNew, found, name, data, reduceCtorEq, and_false, if_false, Option.getD_none]
      refine ⟨_, rfl, Block.getRecord_timestamp found, ?_⟩
      rw [RecordReader.content]
      by_cases empty : 0 < record.length
      · simp only [gt_iff_lt, if_pos empty, Option.elim_some]
        rw [size]
        exact holds
      · simp only [gt_iff_lt, if_neg empty, Option.elim_none]
        exact (List.eq_nil_of_length_eq_zero (by omega)).symm
    | none =>
      rcases later.known blockId time _ is with started | errored | stays
      · exact ⟨_, by rw [openRecord, started]⟩
      · exact ⟨_, by rw [openRecord, errored]⟩
      · exact absurd present stays
  · rw [result]
    refine ⟨serves.same ⟨quiet.steps, quiet.view, by rw [quiet.disk]⟩, ?_⟩
    cases present : stored time with
    | none => exact ⟨failure, rfl⟩
    | some bytes =>
      obtain ⟨blockId, finished, -⟩ := serves.kept time bytes present
      rw [absent blockId] at finished
      cases finished

end Read

section Runs

structure Inventory where
  manager : BlockManager
  stored : Nat → Option (List UInt8)

inductive StoreCall where
  | write (write : Transfer)
  | read (time : Nat)
  | remove (blockId : Nat) (times : List Nat)
  | evict (blockId : Nat)
  | compact
  | sync

def Inventory.call (inventory : Inventory) : StoreCall → Inventory
  | .write write =>
    { manager := inventory.manager.transfer write
      stored := recorded inventory.stored write (inventory.manager.beginWrite write.call).1 }
  | .read time => { inventory with manager := (inventory.manager.beginRead time).2 }
  | .remove blockId times =>
    { manager := (inventory.manager.removeRecords blockId times).2
      stored := inventory.manager.without (fun other time => other = blockId ∧ time ∈ times) inventory.stored }
  | .evict blockId =>
    { manager := inventory.manager.removeBlock blockId
      stored := inventory.manager.without (fun other _ => other = blockId) inventory.stored }
  | .compact => { inventory with manager := inventory.manager.saveCacheMetadataOnDisk }
  | .sync => { inventory with manager := inventory.manager.saveCacheOnDisk }

/-- No write starts a block in the midst of another one, and no removal finds its data file too short. -/
def Inventory.Regular (inventory : Inventory) : StoreCall → Prop
  | .write write => inventory.manager.splits write.call = false
  | .remove blockId times =>
    inventory.manager.InService blockId ∧ ¬ (inventory.manager.removeRecords blockId times).2.Lost blockId
  | _ => True

def Inventory.empty (path bucket entry : String) (backendType : BackendType) (evictions : List (List Nat)) : Inventory :=
  { manager := created path bucket entry backendType evictions, stored := fun _ => none }

/-- The query ends with `NoContent` behind records of these times, each once and in their order. -/
def Returns (manager : BlockManager) (query : HistoricalQuery) (times : Nat → Prop) : Prop :=
  ∃ readers : List RecordReader,
    (∀ calls, readers.length < calls → query.collect calls manager = (readers, some HistoricalQuery.noContent)) ∧
    (readers.map fun reader => reader.recordMeta.timestamp).Pairwise (· < ·) ∧
    ∀ time, (∃ reader ∈ readers, reader.recordMeta.timestamp = time) ↔ times time

variable {path bucket entry : String} {backendType : BackendType} {evictions : List (List Nat)} {inventory : Inventory}
  (run : Runs Inventory.call Inventory.Regular (.empty path bucket entry backendType evictions) inventory)

include run

theorem serves_of_calls : inventory.manager.Serves inventory.stored := by
  refine run.invariant (fun current => current.manager.Serves current.stored) ?_ fun current call serves regular => ?_
  · have nothing := view_created path bucket entry backendType evictions
    exact
      { stocked_created path bucket entry backendType evictions with
        partitioned := (ordered_created path bucket entry backendType evictions).partitioned
        kept := by simp [Inventory.empty]
        known := by simp [Inventory.empty, stateAt, nothing] }
  · cases call with
    | write write => exact serves.transfer write regular
    | read time => exact (serves.read time).1
    | remove blockId times => exact serves.remove regular.1 regular.2
    | evict blockId => exact serves.evict blockId
    | compact => exact serves.same serves.toSound.saveCacheMetadataOnDisk
    | sync => exact serves.same serves.toSound.saveCacheOnDisk

/-- An entry is a map: a read returns what was delivered last and not removed since. -/
theorem read_stored (time : Nat) : inventory.manager.ReadsBack time (inventory.stored time) :=
  ((serves_of_calls run).read time).2

theorem query_stored (entryName : String) (startTime stopTime : Nat) (onlyMetadata : Bool) :
    inventory.manager.Returns (.new entryName startTime stopTime none onlyMetadata) fun time =>
      inventory.stored time ≠ none ∧ startTime ≤ time ∧ time < stopTime := by
  have serves := serves_of_calls run
  have legible : inventory.manager.Legible := { serves.toSound with partitioned := serves.partitioned, present := serves.present }
  have returned := HistoricalQuery.returns_new inventory.manager entryName startTime stopTime none rfl onlyMetadata []
  rw [List.append_nil, passing_none, show selection none = id from rfl, List.map_id] at returned
  obtain ⟨readers, same, collected⟩ := (HistoricalQuery.resumes_new legible entryName startTime stopTime none
    (fun _ absent => by cases absent) rfl onlyMetadata).collect uninterrupted_none returned
  have times : (readers.map fun reader => reader.recordMeta.timestamp) =
    (readers.map RecordReader.recordMeta).map Record.timestamp := by simp
  refine ⟨readers, collected, ?_, fun time => ?_⟩
  · rw [times, same]
    exact List.pairwise_map.mpr ((legible.toOrdered.timeline_sorted (BlockIndex.activeTree_sorted _)).filter _)
  · rw [← List.mem_map, times, same, List.mem_map]
    constructor
    · rintro ⟨record, member, rfl⟩
      obtain ⟨held, inside, finished⟩ := Window.mem_within.mp member
      obtain ⟨blockId, block, seen, found⟩ := legible.toOrdered.mem_timeline.mp held
      have known := serves.known blockId _ _ (stateAt_iff.mpr ⟨block, record, seen, found, rfl⟩)
      simp only [of_decide_eq_true finished, reduceCtorEq, false_or] at known
      exact ⟨known, inside⟩
    · rintro ⟨present, inside⟩
      obtain ⟨bytes, is⟩ := Option.ne_none_iff_exists'.mp present
      obtain ⟨blockId, finished, -⟩ := serves.kept time bytes is
      obtain ⟨block, record, seen, found, state⟩ := stateAt_iff.mp finished
      obtain rfl := Block.getRecord_timestamp found
      exact ⟨record, Window.mem_within.mpr ⟨legible.toOrdered.mem_timeline.mpr ⟨blockId, block, seen, found⟩, inside,
        decide_eq_true state⟩, rfl⟩

end Runs

end BlockManager

end ReductStore

namespace ReductStore.BlockManager

def smallInventory : Inventory :=
  (((Inventory.empty "entry" "bucket" "entry" .filesystem []).call (.write (smallTransfer 5))).call
    (.write (smallTransfer 7))).call (.remove 5 [7])

theorem runs_small : Runs Inventory.call Inventory.Regular (.empty "entry" "bucket" "entry" .filesystem []) smallInventory :=
  .step (.step (.step .start (StoreCall.write (smallTransfer 5)) (by decide +kernel : splits _ _ = false))
    (StoreCall.write (smallTransfer 7)) (by decide +kernel : splits _ _ = false)) (StoreCall.remove 5 [7])
    (by decide +kernel : InService _ 5 ∧ ¬ Lost _ 5)

theorem read_stored_after_removal :
    smallInventory.manager.ReadsBack 5 (some [0]) ∧ smallInventory.manager.ReadsBack 7 none :=
  ⟨(by decide +kernel : smallInventory.stored 5 = some [0]) ▸ read_stored runs_small 5,
    (by decide +kernel : smallInventory.stored 7 = none) ▸ read_stored runs_small 7⟩

theorem query_stored_at_small : smallInventory.manager.Returns (.new "entry" 0 9 none false) fun time =>
    smallInventory.stored time ≠ none ∧ 0 ≤ time ∧ time < 9 := query_stored runs_small "entry" 0 9 false

end ReductStore.BlockManager
