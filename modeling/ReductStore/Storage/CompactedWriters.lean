import ReductStore.Storage.Alike
import ReductStore.Storage.RemovalSections

set_option autoImplicit false

namespace ReductStore

namespace BlockManager

open TreeMap

def content (manager : BlockManager) (blockId time : Nat) : Option (List UInt8) :=
  (manager.view blockId).bind fun block => (block.getRecord time).bind fun record =>
    let bytes := File.range (manager.dataOf blockId) record.beginPos record.endPos
    if bytes.length = record.length then some bytes else none

def Carries (manager : BlockManager) (blockId time length : Nat) (bytes : List UInt8) : Prop :=
  ∃ block record, manager.view blockId = some block ∧ block.getRecord time = some record ∧ record.length = length ∧
    File.Holds (manager.dataOf blockId) record.beginPos bytes

variable [Codec]

section Carries

variable {manager after : BlockManager} {blockId time length : Nat} {bytes : List UInt8}

theorem content_iff (stocked : manager.Stocked) :
    manager.content blockId time = some bytes ↔ manager.Carries blockId time bytes.length bytes := by
  unfold content Carries
  cases seen : manager.view blockId with
  | none => simp
  | some block =>
    cases found : block.getRecord time with
    | none => simp [found]
    | some record =>
      have ordered := (stocked.filled blockId block seen).ordered time record found
      have whole : record.beginPos + record.length = record.endPos := by
        rw [Record.length]
        omega
      simp only [Option.bind_some, found, Option.ite_none_right_eq_some, Option.some.injEq, File.Holds]
      constructor
      · rintro ⟨size, rfl⟩
        exact ⟨block, record, rfl, found, size.symm, by rw [size, whole]⟩
      · rintro ⟨_, _, rfl, held, size, holds⟩
        obtain rfl := Option.some.inj (found.symm.trans held)
        rw [← size, whole] at holds
        exact ⟨by rw [holds, size], holds⟩

omit [Codec] in
theorem Carries.quiet (carries : manager.Carries blockId time length bytes) (view : after.view = manager.view)
    (data : after.disk.data = manager.disk.data) : after.Carries blockId time length bytes := by
  obtain ⟨block, record, seen, found, size, holds⟩ := carries
  refine ⟨block, record, by rw [view, seen], found, size, ?_⟩
  rw [dataOf, data]
  exact holds

theorem Carries.write_other (carries : manager.Carries blockId time length bytes) (short : bytes.length ≤ length)
    (stocked : manager.Stocked) {other position : Nat} {chunk : List UInt8} {block : Block} {record : Record}
    (seen : manager.view blockId = some block) (found : block.getRecord other = some record) (different : time ≠ other)
    (first : record.beginPos ≤ position) (last : position + chunk.length ≤ record.endPos) :
    (manager.modifyData blockId (File.writeAt · position chunk)).Carries blockId time length bytes := by
  obtain ⟨again, own, view, held, rfl, holds⟩ := carries
  obtain rfl := Option.some.inj (seen.symm.trans view)
  refine ⟨block, own, seen, held, rfl, ?_⟩
  have data : (manager.modifyData blockId (File.writeAt · position chunk)).dataOf blockId =
      File.writeAt (manager.dataOf blockId) position chunk := by simp [dataOf, modifyData]
  rw [data]
  by_cases unwritten : chunk = []
  · simpa [File.writeAt, unwritten] using holds
  by_cases empty : bytes = []
  · rw [empty]
    exact File.holds_nil _ _
  have apart := (stocked.filled blockId block seen).disjoint time other own record different held found
  rw [Record.range, Record.range, Set.Ico_disjoint_Ico] at apart
  have written := List.length_pos_iff.mpr unwritten
  have filled := List.length_pos_iff.mpr empty
  rw [Record.length] at short
  exact holds.writeAt_outside (by omega)

omit [Codec] in
theorem Carries.write_own {chunk : List UInt8} (carries : manager.Carries blockId time length bytes) {offset : Nat}
    (place : ∀ block record, manager.view blockId = some block → block.getRecord time = some record →
      record.beginPos = offset) :
    (manager.modifyData blockId (File.writeAt · (offset + bytes.length) chunk)).Carries blockId time length (bytes ++ chunk) := by
  obtain ⟨block, record, seen, found, size, holds⟩ := carries
  refine ⟨block, record, seen, found, size, ?_⟩
  obtain rfl := place block record seen found
  simpa [dataOf, modifyData] using holds.append chunk

theorem Carries.changed {block : Block} (carries : manager.Carries blockId time length bytes)
    (changed : Changed manager after blockId block)
    (places : ∀ old record, manager.view blockId = some old → old.getRecord time = some record →
      ∃ stored, block.getRecord time = some stored ∧ record.SamePlace stored) :
    after.Carries blockId time length bytes := by
  obtain ⟨old, record, seen, found, rfl, holds⟩ := carries
  obtain ⟨stored, kept, begins, ends⟩ := places old record seen found
  refine ⟨block, stored, by rw [changed.view, Function.update_self], kept, ?_, ?_⟩
  · rw [Record.length, Record.length, begins, ends]
  · rw [dataOf, changed.data, ← begins]
    exact holds

theorem Carries.removed {block : Block} {file : File} {times : List Nat}
    (carries : manager.Carries blockId time length bytes) (short : bytes.length ≤ length) (kept : time ∉ times)
    (seen : manager.view blockId = some block) (data : manager.disk.data[blockId]? = some file)
    (removes : Removes manager blockId (retained block times) file after) (served : after.view blockId ≠ none) :
    after.Carries blockId time length bytes := by
  obtain ⟨_, record, view, found, rfl, holds⟩ := carries
  obtain rfl := Option.some.inj (seen.symm.trans view)
  rcases removes.shape with ⟨_, gone⟩ | ⟨_, compacted, moved⟩
  · rw [gone, Function.update_self] at served
    exact absurd rfl served
  have old : (retained block times).getRecord time = some record := by rw [getRecord_retained, if_neg kept, found]
  obtain ⟨first, last, placed⟩ := Block.newPositions_present _ time record old
  have stored := (Block.getRecord_compact _ time _).mpr ⟨record, first, last, old, placed, rfl⟩
  have size : (record.moved first last).length = record.length := Block.newPositions_length _ _ placed record old
  refine ⟨_, _, by rw [compacted, Function.update_self], stored, size, ?_⟩
  obtain ⟨again, present, same⟩ := moved time _ stored
  obtain rfl := Option.some.inj (old.symm.trans present)
  refine File.holds_of_get fun index inside => ?_
  have source : manager.dataOf blockId = file := by rw [dataOf, data, Option.getD_some]
  rw [← holds.get index inside, source]
  have bytes := congrArg (·[index]?) same
  simp only [File.get_range] at bytes
  rw [if_pos, if_pos] at bytes
  · exact bytes
  · rw [Record.length] at short
    omega
  · rw [Record.length] at size
    change last - first = _ at size
    change first + index < last
    omega

end Carries

end BlockManager

inductive WriterStage where
  | receiving (sent : List UInt8)
  | stopped (sent : List UInt8) (result : Except ReductError Unit)
  | ended (sent : List UInt8) (state : RecordState) (reply : Except ReductError Unit)

def WriterStage.sent : WriterStage → List UInt8
  | .receiving sent | .stopped sent _ | .ended sent _ _ => sent

def WriterStage.Complete : WriterStage → Prop
  | .stopped _ (.ok _) | .ended _ .finished _ => True
  | _ => False

structure OpenWriter where
  manager : BlockManager
  context : WriteContext
  writer : WriterStage
  removal : Option (BlockRef × RemovalStage)
  removed : List Nat

inductive OpenWriterEvent where
  | receive (message : WriteChunk)
  | finish
  | remove (times : List Nat)
  | advance

namespace OpenWriter

open BlockManager

def start (manager : BlockManager) (context : WriteContext) : OpenWriter :=
  { manager, context, writer := .receiving [], removal := none, removed := [] }

def receive (state : OpenWriter) (message : WriteChunk) : OpenWriter :=
  match state.writer, message with
  | .receiving sent, .error failure => { state with writer := .stopped sent (.error failure) }
  | .receiving sent, .ok none => { state with writer := .stopped sent (contentReceived state.context sent.length) }
  | .receiving sent, .ok (some chunk) =>
    match state.manager.receiveChunk state.context sent.length chunk with
    | (.error failure, manager) => { state with manager, writer := .stopped sent (.error failure) }
    | (.ok _, manager) => { state with manager, writer := .receiving (sent ++ chunk) }
  | _, _ => state

variable [Codec]

def apply (state : OpenWriter) : OpenWriterEvent → OpenWriter
  | .receive message => state.receive message
  | .finish =>
    match state.writer, state.removal with
    | .stopped sent result, none =>
      let (reply, manager) := state.manager.finishWriteRecord state.context.blockId (writtenState result)
        state.context.recordTimestamp
      { state with manager, writer := .ended sent (writtenState result) reply }
    -- a call of `remove_records` holds the lock
    | _, _ => state
  | .remove times =>
    match state.removal, state.manager.loadBlock state.context.blockId with
    | none, (.ok ref, manager) =>
      { state with manager, removal := some (ref, .drop times), removed := times ++ state.removed }
    | none, (.error _, manager) => { state with manager }
    | some _, _ => state
  | .advance =>
    match state.removal with
    | none => state
    | some (ref, stage) =>
      let (next, manager) := removalSection ref state.context.blockId (stage, state.manager)
      { state with manager, removal := if next = .rest [] then none else some (ref, next) }

def Others (state : OpenWriter) : OpenWriterEvent → Prop
  | .remove times => state.context.recordTimestamp ∉ times
  | _ => True

/-- Bytes are written only while no call of `remove_records` is in progress and the record is where the writer found it;
    the block is not damaged when a call starts or the writer ends. -/
def Undisturbed (state : OpenWriter) : OpenWriterEvent → Prop
  | .receive (.ok (some _)) =>
    state.removal = none ∧ ∀ block ∈ state.manager.view state.context.blockId,
      ∀ record ∈ block.getRecord state.context.recordTimestamp, record.beginPos = state.context.offset
  | .receive _ => True
  | .finish | .remove _ => ¬ state.manager.Lost state.context.blockId
  | .advance => True

structure Holding (origin : BlockManager) (context : WriteContext) (writer : WriterStage) (removed : List Nat)
    (manager : BlockManager) : Prop extends manager.Stocked where
  bounded : writer.sent.length ≤ context.contentSize
  complete : writer.Complete → writer.sent.length = context.contentSize
  own : manager.InService context.blockId →
    manager.Carries context.blockId context.recordTimestamp context.contentSize writer.sent
  others : manager.InService context.blockId → ∀ time bytes, time ≠ context.recordTimestamp → time ∉ removed →
    origin.Carries context.blockId time bytes.length bytes → manager.Carries context.blockId time bytes.length bytes

section Steps

variable {origin manager after : BlockManager} {context : WriteContext} {writer : WriterStage} {removed : List Nat}

theorem Holding.quiet (holding : Holding origin context writer removed manager) (stocked : after.Stocked)
    (view : after.view = manager.view) (data : after.disk.data = manager.disk.data) :
    Holding origin context writer removed after := by
  have served : after.InService context.blockId → manager.InService context.blockId := by
    rw [stocked.toSteady.served_iff, holding.toSteady.served_iff, view]
    exact id
  exact
    { stocked with
      bounded := holding.bounded
      complete := holding.complete
      own := fun found => (holding.own (served found)).quiet view data
      others := fun found time bytes different kept carried =>
        (holding.others (served found) time bytes different kept carried).quiet view data }

theorem Holding.stop (holding : Holding origin context writer removed manager) (next : WriterStage)
    (same : next.sent = writer.sent) (complete : next.Complete → writer.sent.length = context.contentSize) :
    Holding origin context next removed manager :=
  { holding with
    bounded := same ▸ holding.bounded
    complete := same ▸ complete
    own := same ▸ holding.own }

theorem Holding.chunk {sent : List UInt8} (holding : Holding origin context (.receiving sent) removed manager)
    (chunk : List UInt8) (fits : sent.length + chunk.length ≤ context.contentSize)
    (place : ∀ block record, manager.view context.blockId = some block →
      block.getRecord context.recordTimestamp = some record → record.beginPos = context.offset) :
    Holding origin context (.receiving (sent ++ chunk)) removed
      (manager.modifyData context.blockId (File.writeAt · (context.offset + sent.length) chunk)) := by
  have step : Primitive manager (manager.modifyData context.blockId (File.writeAt · (context.offset + sent.length) chunk)) :=
    .write _ _
  have stocked := holding.toStocked.same (.single step) rfl
  refine { stocked with bounded := ?_, complete := fun impossible => impossible.elim, own := ?_, others := ?_ }
  · simpa [WriterStage.sent] using fits
  · exact fun served => (holding.own served).write_own place
  · intro served time bytes different kept carried
    obtain ⟨block, record, seen, found, size, _⟩ := holding.own served
    have begins := place block record seen found
    have ordered := (holding.filled _ block seen).ordered _ record found
    rw [Record.length] at size
    exact (holding.others served time bytes different kept carried).write_other le_rfl holding.toStocked seen found different
      (by omega) (by omega)

theorem Holding.finish {sent : List UInt8} {result : Except ReductError Unit}
    (holding : Holding origin context (.stopped sent result) removed manager) (unmarked : ¬ manager.Lost context.blockId)
    (reply : Except ReductError Unit) :
    Holding origin context (.ended sent (writtenState result) reply) removed
      (manager.finishWriteRecord context.blockId (writtenState result) context.recordTimestamp).2 := by
  have complete : (WriterStage.ended sent (writtenState result) reply).Complete → sent.length = context.contentSize := by
    cases result with
    | ok _ => exact fun _ => holding.complete trivial
    | error failure => exact fun impossible => impossible.elim
  obtain ⟨stocked, changed | ⟨missing, quiet⟩⟩ := holding.toStocked.finishes context.blockId (writtenState result)
    context.recordTimestamp unmarked
  · obtain ⟨block, record, seen, found, changed⟩ := changed
    have served : manager.InService context.blockId := (holding.toSteady.served_iff _).mpr ⟨block, seen⟩
    have places (time : Nat) (old : Block) (stored : Record) (view : manager.view context.blockId = some old)
        (held : old.getRecord time = some stored) :
        ∃ after, (block.modifyRecord context.recordTimestamp (Record.withState (writtenState result))
          (Record.timestamp_withState _)).getRecord time = some after ∧ stored.SamePlace after := by
      obtain rfl := Option.some.inj (seen.symm.trans view)
      rw [Block.getRecord_modifyRecord]
      split_ifs with own
      · exact ⟨stored.withState (writtenState result), by rw [held]; rfl, rfl, rfl⟩
      · exact ⟨stored, held, rfl, rfl⟩
    exact
      { stocked with
        bounded := holding.bounded
        complete := complete
        own := fun _ => (holding.own served).changed changed (places _)
        others := fun _ time bytes different kept carried =>
          (holding.others served time bytes different kept carried).changed changed (places time) }
  · -- only a block out of service lacks the record of the writer
    have outside : ¬ (manager.finishWriteRecord context.blockId (writtenState result)
        context.recordTimestamp).2.InService context.blockId := by
      rw [stocked.toSteady.served_iff, quiet.view, ← holding.toSteady.served_iff]
      intro served
      obtain ⟨block, record, seen, found, _⟩ := holding.own served
      simp [seen, found] at missing
    exact
      { stocked with
        bounded := holding.bounded
        complete := complete
        own := fun served => absurd served outside
        others := fun served => absurd served outside }

theorem Holding.remove (holding : Holding origin context writer removed manager) {times : List Nat}
    (apart : context.recordTimestamp ∉ times) (served : manager.InService context.blockId) :
    Holding origin context writer (times ++ removed) (manager.removeRecords context.blockId times).2 := by
  have stocked := holding.toStocked.removeRecords context.blockId times served
  obtain ⟨block, seen⟩ := (holding.toSteady.served_iff context.blockId).mp served
  obtain ⟨file, data, removes⟩ := holding.toStocked.removes seen times
  have present (still : (manager.removeRecords context.blockId times).2.InService context.blockId) :
      (manager.removeRecords context.blockId times).2.view context.blockId ≠ none :=
    fun none => (stocked.toSteady.view_none _).mp none still
  exact
    { stocked with
      bounded := holding.bounded
      complete := holding.complete
      own := fun still => (holding.own served).removed holding.bounded apart seen data removes (present still)
      others := fun still time bytes different kept carried => by
        rw [List.mem_append, not_or] at kept
        exact (holding.others served time bytes different kept.2 carried).removed le_rfl kept.1 seen data removes
          (present still) }

end Steps

def Kept (origin : BlockManager) (state : OpenWriter) : Prop :=
  match state.removal with
  | none => Holding origin state.context state.writer state.removed state.manager
  | some (ref, stage) => stage ≠ .rest [] ∧ ∃ after,
      Removing ref state.context.blockId (stage, state.manager) (.rest [], after) ∧
        Holding origin state.context state.writer state.removed after

section Machine

variable {origin : BlockManager} {state : OpenWriter}

omit [Codec] in
theorem contentReceived_ok {context : WriteContext} {written : Nat}
    (received : contentReceived context written = .ok ()) : context.contentSize ≤ written := by
  unfold contentReceived at received
  split_ifs at received with short
  omega

theorem Kept.stop (kept : Kept origin state) (next : WriterStage) (same : next.sent = state.writer.sent)
    (complete : next.Complete → state.context.contentSize ≤ state.writer.sent.length) :
    Kept origin { state with writer := next } := by
  have holds (after : BlockManager) (holding : Holding origin state.context state.writer state.removed after) :
      Holding origin state.context next state.removed after :=
    holding.stop next same fun whole => le_antisymm holding.bounded (complete whole)
  unfold Kept at kept ⊢
  cases removal : state.removal with
  | none =>
    simp only [removal] at kept ⊢
    exact holds _ kept
  | some task =>
    simp only [removal] at kept ⊢
    obtain ⟨busy, after, removing, holding⟩ := kept
    exact ⟨busy, after, removing, holds after holding⟩

theorem Kept.receive (kept : Kept origin state) (message : WriteChunk)
    (undisturbed : state.Undisturbed (.receive message)) : Kept origin (state.receive message) := by
  unfold OpenWriter.receive
  cases writer : state.writer with
  | stopped sent result => exact kept
  | ended sent result reply => exact kept
  | receiving sent =>
    have taken : state.writer.sent = sent := by rw [writer]; rfl
    rcases message with failure | _ | chunk
    · exact kept.stop (.stopped sent (.error failure)) taken.symm fun impossible => impossible.elim
    · refine kept.stop (.stopped sent (contentReceived state.context sent.length)) taken.symm fun whole => ?_
      rw [taken]
      refine contentReceived_ok ?_
      cases received : contentReceived state.context sent.length with
      | ok _ => rfl
      | error failure =>
        rw [received] at whole
        exact whole.elim
    · obtain ⟨idle, place⟩ := undisturbed
      simp only [receiveChunk]
      by_cases large : sent.length + chunk.length > state.context.contentSize
      · simp only [if_pos large]
        exact kept.stop (.stopped sent (.error _)) taken.symm fun impossible => impossible.elim
      · simp only [if_neg large]
        have position : state.context.offset + (sent.length + chunk.length) - chunk.length =
            state.context.offset + sent.length := by omega
        rw [position]
        simp only [Kept, idle] at kept ⊢
        rw [writer] at kept
        exact kept.chunk chunk (by omega) fun block record seen found => place block seen record found

theorem Kept.remove (kept : Kept origin state) (times : List Nat)
    (apart : state.context.recordTimestamp ∉ times) (unmarked : ¬ state.manager.Lost state.context.blockId) :
    Kept origin (state.apply (.remove times)) := by
  cases removal : state.removal with
  | some task => simpa only [OpenWriter.apply, removal] using kept
  | none =>
    have holding : Holding origin state.context state.writer state.removed state.manager := by
      simpa only [Kept, removal] using kept
    by_cases served : state.manager.InService state.context.blockId
    · obtain ⟨ref, loaded, result, effect⟩ := holding.toSteady.load state.context.blockId served
      simp only [OpenWriter.apply, removal, result, Kept]
      refine ⟨by simp, _, removing_whole ref _ loaded times effect.name, ?_⟩
      have removed := holding.remove apart served
      simpa only [BlockManager.removeRecords, result] using removed
    · obtain ⟨failure, loaded, result, stocked, view, data, _⟩ := holding.toStocked.load_missing served unmarked
      simp only [OpenWriter.apply, removal, result, Kept]
      exact holding.quiet stocked view data

theorem Kept.advance (kept : Kept origin state) : Kept origin (state.apply .advance) := by
  cases removal : state.removal with
  | none => simpa only [OpenWriter.apply, removal] using kept
  | some task =>
    obtain ⟨ref, stage⟩ := task
    obtain ⟨busy, after, removing, holding⟩ : stage ≠ .rest [] ∧ ∃ after,
        Removing ref state.context.blockId (stage, state.manager) (.rest [], after) ∧
          Holding origin state.context state.writer state.removed after := by
      simpa only [Kept, removal] using kept
    rcases removing.cases_head with same | ⟨_, rfl, rest⟩
    · exact absurd (congrArg Prod.fst same) busy
    · generalize next : removalSection ref state.context.blockId (stage, state.manager) = reply at rest
      obtain ⟨stage, manager⟩ := reply
      simp only [OpenWriter.apply, removal, next, Kept]
      by_cases done : stage = .rest []
      · -- the last step of the call
        subst done
        simp only [if_true]
        obtain rfl : after = manager := congrArg Prod.snd (removing_ended rest)
        exact holding
      · simp only [if_neg done]
        exact ⟨done, after, rest, holding⟩

theorem Kept.apply (kept : Kept origin state) (event : OpenWriterEvent) (others : state.Others event)
    (undisturbed : state.Undisturbed event) : Kept origin (state.apply event) := by
  cases event with
  | receive message => exact kept.receive message undisturbed
  | remove times => exact kept.remove times others undisturbed
  | advance => exact kept.advance
  | finish =>
    simp only [OpenWriter.apply]
    cases writer : state.writer with
    | receiving sent => exact kept
    | ended sent result reply => exact kept
    | stopped sent result =>
      cases removal : state.removal with
      | some task => exact kept
      | none =>
        simp only [Kept, removal, writer] at kept ⊢
        exact kept.finish undisturbed _

end Machine

theorem context_apply (state : OpenWriter) (event : OpenWriterEvent) : (state.apply event).context = state.context := by
  cases event with
  | receive message =>
    simp only [OpenWriter.apply, OpenWriter.receive]
    split
    · rfl
    · rfl
    · split <;> rfl
    · rfl
  | finish =>
    simp only [OpenWriter.apply]
    split <;> rfl
  | remove times =>
    simp only [OpenWriter.apply]
    split <;> rfl
  | advance =>
    simp only [OpenWriter.apply]
    split <;> rfl

def Opened (manager : BlockManager) (context : WriteContext) : Prop :=
  ∃ block record, manager.view context.blockId = some block ∧ block.getRecord context.recordTimestamp = some record ∧
    record.beginPos = context.offset ∧ record.length = context.contentSize

theorem kept_start {manager : BlockManager} {context : WriteContext} (stocked : manager.Stocked)
    (opened : Opened manager context) : Kept manager (start manager context) := by
  obtain ⟨block, record, seen, found, _, size⟩ := opened
  exact
    { stocked with
      bounded := Nat.zero_le _
      complete := fun impossible => impossible.elim
      own := fun _ => ⟨block, record, seen, found, size, File.holds_nil _ _⟩
      others := fun _ _ _ _ _ carried => carried }

/-- A writer that ends in the state Finished has its content in the block, and the other records that are not removed have
theirs. -/
theorem finished_content (path bucket entry : String) (backendType : BackendType) (evictions : List (List Nat))
    {manager : BlockManager} {context : WriteContext} {state : OpenWriter} {sent : List UInt8}
    (history : Runs perform (fun current operation => current.Sequential operation ∧ current.Harmless operation)
      (created path bucket entry backendType evictions) manager)
    (opened : Opened manager context)
    (run : Runs apply (fun current event => current.Others event ∧ current.Undisturbed event) (start manager context) state)
    (ended : state.writer = .ended sent .finished (.ok ())) (idle : state.removal = none)
    (served : state.manager.InService context.blockId) :
    state.manager.content context.blockId context.recordTimestamp = some sent ∧
      ∀ time bytes, time ≠ context.recordTimestamp → time ∉ state.removed →
        manager.content context.blockId time = some bytes → state.manager.content context.blockId time = some bytes := by
  have stocked := stocked_of_history path bucket entry backendType evictions history
  obtain ⟨same, kept⟩ : state.context = context ∧ Kept manager state :=
    run.invariant (fun current => current.context = context ∧ Kept manager current) ⟨rfl, kept_start stocked opened⟩
      fun current event ⟨same, kept⟩ allowed => ⟨(context_apply current event).trans same, kept.apply event allowed.1 allowed.2⟩
  simp only [Kept, idle, same, ended] at kept
  have whole : sent.length = context.contentSize := kept.complete trivial
  constructor
  · rw [content_iff kept.toStocked, whole]
    exact kept.own served
  · intro time bytes different retained stored
    rw [content_iff stocked] at stored
    exact (content_iff kept.toStocked).mpr (kept.others served time bytes different retained stored)

end OpenWriter

end ReductStore

namespace ReductStore.OpenWriter

open BlockManager

instance (state : OpenWriter) (event : OpenWriterEvent) : Decidable (state.Others event) := by
  cases event <;> unfold Others <;> infer_instance

instance (state : OpenWriter) (event : OpenWriterEvent) : Decidable (state.Undisturbed event) := by
  rcases event with (_ | _ | _) | _ | _ | _ <;> unfold Undisturbed <;> infer_instance

def secondOpening : List EntryOperation :=
  [.beginWrite (smallWrite 1 1),
    .runWriter { blockId := 1, recordTimestamp := 1, offset := 0, contentSize := 1 } (contentOf [[5]]),
    .beginWrite (smallWrite 2 2)]

def secondOpened : BlockManager := secondOpening.foldl perform smallEntry

def secondContext : WriteContext := { blockId := 1, recordTimestamp := 2, offset := 1, contentSize := 2 }

def removeFirst : List OpenWriterEvent := .remove [1] :: List.replicate 14 .advance

def writeSecond : List OpenWriterEvent := [.receive (.ok (some [7, 8])), .receive (.ok none)]

def afterOpening (events : List OpenWriterEvent) : OpenWriter := events.foldl apply (start secondOpened secondContext)

instance (manager : BlockManager) (context : WriteContext) : Decidable (Opened manager context) :=
  decidable_of_iff (∃ block ∈ manager.view context.blockId, ∃ record ∈ block.getRecord context.recordTimestamp,
    record.beginPos = context.offset ∧ record.length = context.contentSize) (by simp [Opened])

theorem finished_content_second :
    (afterOpening (writeSecond ++ removeFirst ++ [.finish])).manager.content 1 2 = some [7, 8] := by
  have history : Runs perform (fun current operation => current.Sequential operation ∧ current.Harmless operation)
      smallEntry secondOpened := .of_list secondOpening _ (by decide +kernel)
  have run : Runs apply (fun current event => current.Others event ∧ current.Undisturbed event)
      (start secondOpened secondContext) (afterOpening (writeSecond ++ removeFirst ++ [.finish])) :=
    .of_list _ _ (by decide +kernel)
  have ended : (afterOpening (writeSecond ++ removeFirst ++ [.finish])).writer = .ended [7, 8] .finished (.ok ()) := by
    rfl
  exact (finished_content "entry" "bucket" "entry" .filesystem [] history (by decide +kernel) run ended
    (by decide +kernel) (by decide +kernel)).1

theorem finished_content_moved :
    let state := afterOpening (removeFirst ++ writeSecond ++ [.finish])
    Runs apply Others (start secondOpened secondContext) state ∧ state.writer = .ended [7, 8] .finished (.ok ()) ∧
      state.removal = none ∧ state.manager.content 1 2 = some [0, 7] := by
  refine ⟨.of_list _ _ ?_, rfl, ?_, ?_⟩
  · decide +kernel
  · decide +kernel
  · decide +kernel

end ReductStore.OpenWriter
