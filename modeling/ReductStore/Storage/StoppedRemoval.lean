import ReductStore.Storage.Allocation
import ReductStore.Storage.Retention

set_option autoImplicit false

namespace ReductStore.BlockManager

open TreeMap

namespace RemovalStep

def still : RemovalStep → Bool
  | .dropRecord _ | .logRemoval _ | .openTemp | .writeTemp _ _ => true
  | _ => false

def gone (steps : List RemovalStep) : List Nat :=
  steps.filterMap fun
    | .dropRecord time => some time
    | _ => none

def logged (steps : List RemovalStep) : List Nat :=
  steps.filterMap fun
    | .logRemoval time => some time
    | _ => none

end RemovalStep

open RemovalStep

theorem still_writeTemps (buffers : List (List UInt8)) (position : Nat) :
    ∀ step ∈ writeTemps position buffers, step.still = true := by
  induction buffers generalizing position with
  | nil => simp [writeTemps]
  | cons buffer rest ih =>
    intro step member
    rcases List.mem_cons.mp member with rfl | later
    · rfl
    · exact ih _ step later

theorem still_dropSteps (times : List Nat) : ∀ step ∈ dropSteps times, step.still = true := by
  intro step member
  obtain ⟨time, _, found⟩ := List.mem_flatMap.mp member
  simp only [List.mem_cons, List.not_mem_nil, or_false] at found
  rcases found with rfl | rfl <;> rfl

theorem gone_writeTemps (buffers : List (List UInt8)) (position : Nat) : gone (writeTemps position buffers) = [] := by
  induction buffers generalizing position with
  | nil => rfl
  | cons buffer rest ih => exact ih _

theorem gone_dropSteps (times : List Nat) : gone (dropSteps times) = times := by
  induction times with
  | nil => rfl
  | cons time rest ih => exact congrArg (time :: ·) ih

theorem logged_dropSteps (times : List Nat) : logged (dropSteps times) = times := by
  induction times with
  | nil => rfl
  | cons time rest ih => exact congrArg (time :: ·) ih

theorem logged_writeTemps (buffers : List (List UInt8)) (position : Nat) : logged (writeTemps position buffers) = [] := by
  induction buffers generalizing position with
  | nil => rfl
  | cons buffer rest ih => exact ih _

def setTemp (manager : BlockManager) (temp : Std.ExtTreeMap Nat File) : BlockManager :=
  { manager with disk := { manager.disk with temp := temp } }

theorem appendLog_setTemp (entries : List WalEntry) (manager : BlockManager) (blockId : Nat)
    (temp : Std.ExtTreeMap Nat File) :
    (manager.setTemp temp).appendLog blockId entries = (manager.appendLog blockId entries).setTemp temp := by
  induction entries generalizing manager with
  | nil => rfl
  | cons entry rest ih => exact ih (manager.walAppend blockId entry)

variable [Codec]

theorem run_still (ref : BlockRef) (blockId : Nat) (steps : List RemovalStep)
    (still : ∀ step ∈ steps, step.still = true) (manager : BlockManager) :
    ∃ temp, steps.foldl (runRemoval ref blockId) manager =
      ((manager.appendLog blockId ((logged steps).map .removeRecord)).setBlock ref
        (retained (manager.heap ref) (gone steps))).setTemp temp := by
  induction steps generalizing manager with
  | nil => exact ⟨manager.disk.temp, by simp [logged, gone, retained, appendLog, setBlock, setTemp]⟩
  | cons step rest ih =>
    obtain ⟨temp, run⟩ := ih (fun later member => still later (List.mem_cons_of_mem _ member))
      (runRemoval ref blockId manager step)
    have first := still step (by simp)
    refine ⟨temp, ?_⟩
    rw [List.foldl_cons, run]
    cases step with
    | dropRecord time =>
      rw [show runRemoval ref blockId manager (.dropRecord time) =
        manager.setBlock ref ((manager.heap ref).removeRecord time) from rfl, appendLog_setBlock, setBlock_setBlock]
      simp only [setBlock, Function.update_self]
      rfl
    | logRemoval time => rfl
    | openTemp =>
      rw [show runRemoval ref blockId manager .openTemp = manager.setTemp _ from rfl, appendLog_setTemp]
      rfl
    | writeTemp position buffer =>
      rw [show runRemoval ref blockId manager (.writeTemp position buffer) = manager.setTemp _ from rfl,
        appendLog_setTemp]
      rfl
    | _ => simp [RemovalStep.still] at first

section Stops

def exchangeSteps : List RemovalStep :=
  [.removeData, .renameTemp, .openData, .writeDescriptor, .indexDescriptor, .saveIndex, .removeLog]

inductive StopsAt (manager : BlockManager) (ref : BlockRef) (times : List Nat) (file : File) : List RemovalStep → Prop where
  | still {steps : List RemovalStep} (still : ∀ step ∈ steps, step.still = true) (dropped : gone steps <+: times)
      (recorded : logged steps <+: times) : StopsAt manager ref times file steps
  | emptying {rest : List RemovalStep} (empty : (retained (manager.heap ref) times).recordCount = 0)
      (reached : rest <+: removeBlockSteps) : StopsAt manager ref times file (dropSteps times ++ rest)
  | damaged (buffers : List (List UInt8)) :
      StopsAt manager ref times file (dropSteps times ++ (.openTemp :: writeTemps 0 buffers) ++ [.abandon true])
  | exchanging {rest : List RemovalStep} (buffers : List (List UInt8))
      (readable : ∀ record ∈ (retained (manager.heap ref) times).records, Readable file record)
      (bytes : buffers.flatten = Placement.contents (contentsOf file (retained (manager.heap ref) times).records))
      (reached : rest <+: exchangeSteps) :
      StopsAt manager ref times file (dropSteps times ++ (.openTemp :: writeTemps 0 buffers) ++
        .moveRecords (retained (manager.heap ref) times).newPositions :: rest)

omit [Codec] in
theorem prefix_append_cases {α : Type} {steps first second : List α} (reached : steps <+: first ++ second) :
    steps <+: first ∨ ∃ rest, steps = first ++ rest ∧ rest <+: second := by
  obtain ⟨later, split⟩ := reached
  rcases List.append_eq_append_iff.mp split with ⟨rest, before, _⟩ | ⟨rest, equal, after⟩
  · exact Or.inl ⟨rest, before.symm⟩
  · exact Or.inr ⟨rest, equal, later, after.symm⟩

theorem stopsAt_still {manager : BlockManager} {ref : BlockRef} {times : List Nat} {file : File}
    {steps : List RemovalStep} (buffers : List (List UInt8))
    (reached : steps <+: dropSteps times ++ (.openTemp :: writeTemps 0 buffers)) :
    StopsAt manager ref times file steps := by
  refine .still (fun step member => ?_) ?_ ?_
  · rcases List.mem_append.mp (reached.subset member) with drop | copy
    · exact still_dropSteps times step drop
    · rcases List.mem_cons.mp copy with rfl | write
      · rfl
      · exact still_writeTemps buffers 0 step write
  · have all : gone (dropSteps times ++ (.openTemp :: writeTemps 0 buffers)) = times := by
      rw [gone, List.filterMap_append, ← gone, gone_dropSteps]
      exact (congrArg (times ++ ·) (gone_writeTemps buffers 0)).trans (List.append_nil times)
    exact all ▸ reached.filterMap _
  · have all : logged (dropSteps times ++ (.openTemp :: writeTemps 0 buffers)) = times := by
      rw [logged, List.filterMap_append, ← logged, logged_dropSteps]
      exact (congrArg (times ++ ·) (logged_writeTemps buffers 0)).trans (List.append_nil times)
    exact all ▸ reached.filterMap _

theorem stopsAt_copied {manager : BlockManager} {ref : BlockRef} {times : List Nat} {file : File}
    {steps after : List RemovalStep} {step : RemovalStep} {buffers : List (List UInt8)}
    (reached : steps <+: dropSteps times ++ ((.openTemp :: writeTemps 0 buffers) ++ step :: after)) :
    StopsAt manager ref times file steps ∨
      ∃ rest, steps = dropSteps times ++ (.openTemp :: writeTemps 0 buffers) ++ step :: rest ∧ rest <+: after := by
  rw [← List.append_assoc] at reached
  rcases prefix_append_cases reached with early | ⟨rest, rfl, late⟩
  · exact Or.inl (stopsAt_still buffers early)
  · cases rest with
    | nil => exact Or.inl (stopsAt_still buffers (by simp))
    | cons _ more =>
      obtain ⟨rfl, later⟩ := List.cons_prefix_cons.mp late
      exact Or.inr ⟨more, rfl, later⟩

theorem stopsAt (manager : BlockManager) (ref : BlockRef) (times : List Nat) (file : File)
    (data : manager.disk.data[(manager.heap ref).blockId]? = some file) (steps : List RemovalStep)
    (reached : steps <+: manager.removalSteps ref times) : StopsAt manager ref times file steps := by
  set block := retained (manager.heap ref) times with blockEq
  have title : block.blockId = (manager.heap ref).blockId := blockId_retained times _
  unfold removalSteps at reached
  simp only [← blockEq] at reached
  by_cases empty : block.recordCount = 0
  · rw [if_pos empty] at reached
    rcases prefix_append_cases reached with early | ⟨rest, rfl, late⟩
    · exact stopsAt_still [] (early.trans (List.prefix_append _ _))
    · exact .emptying empty late
  rw [if_neg empty] at reached
  by_cases readable : ∀ record ∈ block.records, Readable file record
  · obtain ⟨buffers, copied, bytes⟩ := copyRecords_whole (manager.dataPath block.blockId) file block.records 0 readable
    simp only [compactSteps, title, data] at reached
    rw [← title, copied] at reached
    change steps <+: dropSteps times ++ ((.openTemp :: writeTemps 0 buffers) ++ replaceSteps block.newPositions) at reached
    rcases stopsAt_copied reached with still | ⟨rest, rfl, later⟩
    · exact still
    · exact .exchanging buffers readable bytes later
  · obtain ⟨buffers, failure, copied, eof⟩ := copyRecords_short (manager.dataPath block.blockId) file block.records 0
      (by simpa using readable)
    simp only [compactSteps, title, data] at reached
    rw [← title, copied] at reached
    change steps <+: dropSteps times ++ ((.openTemp :: writeTemps 0 buffers) ++ [.abandon failure.unexpectedEof]) at reached
    rw [eof] at reached
    rcases stopsAt_copied reached with still | ⟨rest, rfl, later⟩
    · exact still
    · obtain rfl := List.prefix_nil.mp later
      exact .damaged buffers

end Stops

section Phases

omit [Codec] in
theorem getRead_markBlockCorrupted (manager : BlockManager) (blockId : Nat) :
    (manager.markBlockCorrupted blockId).getRead blockId = none := by
  unfold markBlockCorrupted
  simp only [removeCached]
  cases manager.disk.desc[blockId]? <;> simp [getRead, saveIndex]

inductive RemovalPhase where
  | removing (times : List Nat)
  | moved
  | unlinked
  | exchanged
  | abandoned
  deriving DecidableEq

def RemovalPhase.next (phase : RemovalPhase) : RemovalStep → RemovalPhase
  | .dropRecord time =>
    match phase with
    | .removing times => .removing (times ++ [time])
    | _ => phase
  | .moveRecords _ => .moved
  | .removeData => .unlinked
  | .renameTemp => .exchanged
  | .abandon true => .abandoned
  | _ => phase

def phaseOf (steps : List RemovalStep) : RemovalPhase := steps.foldl RemovalPhase.next (.removing [])

omit [Codec] in
theorem phase_still (steps : List RemovalStep) (still : ∀ step ∈ steps, step.still = true) (times : List Nat) :
    steps.foldl RemovalPhase.next (.removing times) = .removing (times ++ gone steps) := by
  induction steps generalizing times with
  | nil => simp [gone]
  | cons step rest ih =>
    have later := ih (fun other member => still other (List.mem_cons_of_mem _ member))
    have first := still step (by simp)
    cases step with
    | dropRecord time =>
      refine (later (times ++ [time])).trans ?_
      rw [List.append_assoc]
      rfl
    | logRemoval time => exact later times
    | openTemp => exact later times
    | writeTemp position buffer => exact later times
    | _ => simp [RemovalStep.still] at first

def Fits (block : Block) : Prop :=
  ∀ record ∈ block.records, record.beginPos < record.endPos → record.endPos ≤ block.size

omit [Codec] in
theorem mem_records_of_get {block : Block} {time : Nat} {record : Record} (found : block.getRecord time = some record) :
    record ∈ block.records := by
  rw [Block.mem_records, Block.getRecord_timestamp found]
  exact found

omit [Codec] in
theorem layout_iff_fits {block : Block} (accounted : block.Accounted) (separated : block.Separated) :
    block.Layout ↔ Fits block := by
  constructor
  · intro layout record member filled
    exact layout.end_le ((Block.mem_records block record).mp member) filled
  · intro fits
    refine { accounted, separated with inside := ?_ }
    intro time record found position within
    simp only [Record.range, Set.mem_Ico] at within ⊢
    have bound := fits record (mem_records_of_get found) (by omega)
    omega

def StopsSafely (block : Block) (file : File) (times : List Nat) : RemovalPhase → Prop
  | .removing gone => Fits (retained block gone)
  | .moved => ∀ slot ∈ (retained block times).newPositions, ∀ record,
      (retained block times).getRecord slot.1 = some record →
      File.range file slot.2.1 slot.2.2 = File.range file record.beginPos record.endPos
  | .unlinked => ∀ record ∈ (retained block times).records, record.length = 0
  | .exchanged => True
  | .abandoned => True

def LeftUsable (before after : BlockManager) (blockId : Nat) (ref : BlockRef) : Prop :=
  ∀ cached, after.getRead blockId = some cached → (after.heap cached).Layout ∧
    ∀ (time : Nat) (record : Record), (after.heap cached).getRecord time = some record →
      ∃ old, (before.heap ref).getRecord time = some old ∧
        File.range (after.dataOf blockId) record.beginPos record.endPos =
          File.range (before.dataOf blockId) old.beginPos old.endPos

variable {manager after : BlockManager} {blockId : Nat} {ref : BlockRef}

omit [Codec] in
theorem leftUsable_iff (cached : after.getRead blockId = some ref) :
    LeftUsable manager after blockId ref ↔ (after.heap ref).Layout ∧
      ∀ (time : Nat) (record : Record), (after.heap ref).getRecord time = some record →
        ∃ old, (manager.heap ref).getRecord time = some old ∧
          File.range (after.dataOf blockId) record.beginPos record.endPos =
            File.range (manager.dataOf blockId) old.beginPos old.endPos := by
  constructor
  · exact fun usable => usable ref cached
  · rintro usable found present
    obtain rfl := Option.some.inj (cached.symm.trans present)
    exact usable

theorem usable_removing (cached : after.getRead blockId = some ref) (layout : (manager.heap ref).Layout)
    (times : List Nat) (content : after.heap ref = retained (manager.heap ref) times)
    (data : after.dataOf blockId = manager.dataOf blockId) :
    LeftUsable manager after blockId ref ↔ Fits (retained (manager.heap ref) times) := by
  rw [leftUsable_iff cached, content, data, ← layout_iff_fits (accounted_retained times layout.toAccounted)
    (separated_retained times layout.toSeparated), and_iff_left_iff_imp]
  intro _ time record found
  rw [getRecord_retained] at found
  split_ifs at found
  exact ⟨record, found, rfl⟩

theorem usable_compacted (cached : after.getRead blockId = some ref) (layout : (manager.heap ref).Layout)
    (times : List Nat) (content : after.heap ref = (retained (manager.heap ref) times).compact) :
    LeftUsable manager after blockId ref ↔
      ∀ slot ∈ (retained (manager.heap ref) times).newPositions, ∀ record,
        (retained (manager.heap ref) times).getRecord slot.1 = some record →
        File.range (after.dataOf blockId) slot.2.1 slot.2.2 =
          File.range (manager.dataOf blockId) record.beginPos record.endPos := by
  have compacted := (accounted_retained times layout.toAccounted).layout_compact
  have old (time : Nat) (record : Record) (found : (retained (manager.heap ref) times).getRecord time = some record) :
      (manager.heap ref).getRecord time = some record := by
    rw [getRecord_retained] at found
    split_ifs at found
    exact found
  rw [leftUsable_iff cached, content, and_iff_right compacted]
  constructor
  · rintro same ⟨time, first, last⟩ placed record found
    obtain ⟨stored, was, bytes⟩ := same time (record.moved first last)
      ((Block.getRecord_compact _ time _).mpr ⟨record, first, last, found, placed, rfl⟩)
    obtain rfl := Option.some.inj (was.symm.trans (old time record found))
    exact bytes
  · intro same time record found
    obtain ⟨stored, first, last, present, placed, rfl⟩ := (Block.getRecord_compact _ time record).mp found
    exact ⟨stored, old time stored present, same _ placed stored present⟩

omit [Codec] in
theorem unlinked_iff (block : Block) (file : File) (readable : ∀ record ∈ block.records, Readable file record) :
    (∀ slot ∈ block.newPositions, ∀ record, block.getRecord slot.1 = some record →
        File.range [] slot.2.1 slot.2.2 = File.range file record.beginPos record.endPos) ↔
      ∀ record ∈ block.records, record.length = 0 := by
  have size (record : Record) (member : record ∈ block.records) :
      (File.range file record.beginPos record.endPos).length = record.length := by
    have bytes := readable record member
    simp only [Readable] at bytes
    rw [length_range, Record.length]
    omega
  constructor
  · intro same record member
    have found := (Block.mem_records block record).mp member
    obtain ⟨first, last, placed⟩ := Block.newPositions_present block record.timestamp record found
    rw [← size record member, ← same _ placed record found]
    simp [length_range]
  · intro empty slot placed record found
    have member := mem_records_of_get found
    rw [List.length_eq_zero_iff.mp ((size record member).trans (empty record member))]
    simp [← List.length_eq_zero_iff, length_range]

theorem getRead_runRemoval (steps : List RemovalStep) (manager : BlockManager) (found : BlockRef)
    (cached : (steps.foldl (runRemoval ref blockId) manager).getRead blockId = some found) :
    manager.getRead blockId = some found := by
  induction steps generalizing manager with
  | nil => exact cached
  | cons step rest ih =>
    have next := ih _ cached
    cases step with
    | removeCached => simp [runRemoval, removeCached, getRead] at next
    | abandon eof =>
      cases eof with
      | false => exact next
      | true => exact absurd next (by simp [runRemoval, getRead_markBlockCorrupted])
    | _ => exact next

def savingSteps : List RemovalStep := [.openData, .writeDescriptor, .indexDescriptor, .saveIndex, .removeLog]

theorem run_saving (steps : List RemovalStep) (saving : ∀ step ∈ steps, step ∈ savingSteps) (manager : BlockManager) :
    (steps.foldl (runRemoval ref blockId) manager).heap = manager.heap ∧
      (steps.foldl (runRemoval ref blockId) manager).getRead blockId = manager.getRead blockId ∧
      (steps.foldl (runRemoval ref blockId) manager).dataOf blockId = manager.dataOf blockId ∧
      ∀ phase, steps.foldl RemovalPhase.next phase = phase := by
  induction steps generalizing manager with
  | nil => exact ⟨rfl, rfl, rfl, fun _ => rfl⟩
  | cons step rest ih =>
    obtain ⟨heap, read, data, phase⟩ := ih (fun other member => saving other (List.mem_cons_of_mem _ member))
      (runRemoval ref blockId manager step)
    have listed := saving step (by simp)
    simp only [savingSteps, List.mem_cons, List.not_mem_nil, or_false] at listed
    simp only [List.foldl_cons, heap, read, data, phase]
    rcases listed with rfl | rfl | rfl | rfl | rfl
    · exact ⟨rfl, rfl, by simp [runRemoval, dataOf, modifyData], fun _ => rfl⟩
    all_goals exact ⟨rfl, rfl, rfl, fun _ => rfl⟩

theorem usable_exchanging (cached : manager.getRead blockId = some ref) (layout : (manager.heap ref).Layout)
    (file : File) (data : manager.dataOf blockId = file) (times : List Nat)
    (readable : ∀ record ∈ (retained (manager.heap ref) times).records, Readable file record) (tail : File)
    (rest : List RemovalStep) (reached : rest <+: exchangeSteps) (phase : RemovalPhase) :
    LeftUsable manager
        ((.moveRecords (retained (manager.heap ref) times).newPositions :: rest).foldl (runRemoval ref blockId)
          (withTemp blockId (manager.dropped ref blockId times)
            (Placement.contents (contentsOf file (retained (manager.heap ref) times).records) ++ tail))) blockId ref ↔
      StopsSafely (manager.heap ref) file times
        ((.moveRecords (retained (manager.heap ref) times).newPositions :: rest).foldl RemovalPhase.next phase) := by
  have edited := dropped_edited manager ref blockId times
  have sameData := (dropped_data manager ref blockId times).1
  generalize manager.dropped ref blockId times = middle at edited sameData ⊢
  set block := retained (manager.heap ref) times with blockEq
  set content := Placement.contents (contentsOf file block.records) ++ tail
  set moved := runRemoval ref blockId (withTemp blockId middle content) (.moveRecords block.newPositions) with movedEq
  have held : middle.heap ref = block := by rw [edited.heap, Function.update_self]
  have heap : moved.heap ref = block.compact := by
    simp [movedEq, runRemoval, setBlock, withTemp, Block.compact, held]
  have read : moved.getRead blockId = some ref := by
    rw [← cached]
    simp [movedEq, runRemoval, setBlock, withTemp, getRead, edited.write, edited.read]
  have old : moved.dataOf blockId = file := by
    rw [← data]
    simp [movedEq, runRemoval, setBlock, withTemp, dataOf, sameData]
  rw [List.foldl_cons, List.foldl_cons, ← movedEq, show RemovalPhase.next phase (.moveRecords _) = .moved from rfl]
  rcases rest with _ | ⟨second, rest⟩
  · rw [List.foldl_nil, List.foldl_nil, usable_compacted read layout times heap, old, data]
    rfl
  obtain ⟨rfl, reachedSecond⟩ := List.cons_prefix_cons.mp reached
  rcases rest with _ | ⟨third, rest⟩
  · -- without a data file nothing is read
    set unlinked := runRemoval ref blockId moved .removeData with unlinkedEq
    have gone : unlinked.dataOf blockId = [] := by simp [unlinkedEq, runRemoval, dataOf]
    change LeftUsable manager unlinked blockId ref ↔ StopsSafely _ _ _ .unlinked
    rw [usable_compacted (show unlinked.getRead blockId = some ref from read) layout times heap, gone, data]
    exact unlinked_iff block file readable
  · obtain ⟨rfl, reachedThird⟩ := List.cons_prefix_cons.mp reachedSecond
    set exchanged := runRemoval ref blockId (runRemoval ref blockId moved .removeData) .renameTemp with exchangedEq
    obtain ⟨sameHeap, sameRead, sameData, samePhase⟩ := run_saving rest (fun step member => reachedThird.subset member) exchanged
    have final : exchanged.dataOf blockId = content := by
      simp [exchangedEq, movedEq, runRemoval, dataOf, setBlock, withTemp]
    change LeftUsable manager (rest.foldl (runRemoval ref blockId) exchanged) blockId ref ↔
      StopsSafely _ _ _ (rest.foldl RemovalPhase.next .exchanged)
    rw [usable_compacted (sameRead.trans read) layout times ((congrFun sameHeap ref).trans heap), sameData, final, data, samePhase]
    exact iff_of_true (range_compacted block file tail readable) trivial

theorem usable_emptying (cached : manager.getRead blockId = some ref) (layout : (manager.heap ref).Layout)
    (times : List Nat) (empty : (retained (manager.heap ref) times).recordCount = 0) (rest : List RemovalStep)
    (reached : rest <+: removeBlockSteps) :
    LeftUsable manager ((dropSteps times ++ rest).foldl (runRemoval ref blockId) manager) blockId ref ∧
      phaseOf (dropSteps times ++ rest) = .removing times := by
  have accounted := accounted_retained times layout.toAccounted
  have kept (steps : List RemovalStep) (listed : ∀ step ∈ steps, step ∈ removeBlockSteps) (current : BlockManager) :
      (steps.foldl (runRemoval ref blockId) current).heap = current.heap ∧
        ∀ phase, steps.foldl RemovalPhase.next phase = phase := by
    induction steps generalizing current with
    | nil => exact ⟨rfl, fun _ => rfl⟩
    | cons step more ih =>
      obtain ⟨heap, phase⟩ := ih (fun other member => listed other (List.mem_cons_of_mem _ member))
        (runRemoval ref blockId current step)
      have first := listed step (by simp)
      simp only [removeBlockSteps, List.mem_cons, List.not_mem_nil, or_false] at first
      simp only [List.foldl_cons, heap, phase]
      rcases first with rfl | rfl | rfl | rfl | rfl | rfl | rfl <;> exact ⟨rfl, fun _ => rfl⟩
  obtain ⟨heap, phase⟩ := kept rest (fun step member => reached.subset member)
    ((dropSteps times).foldl (runRemoval ref blockId) manager)
  rw [List.foldl_append, phaseOf, List.foldl_append, phase, phase_still _ (still_dropSteps times), gone_dropSteps,
    List.nil_append]
  refine ⟨fun found present => ?_, rfl⟩
  have same : found = ref := by
    rw [← List.foldl_append] at present
    exact Option.some.inj ((getRead_runRemoval _ manager found present).symm.trans cached)
  have content : (rest.foldl (runRemoval ref blockId) ((dropSteps times).foldl (runRemoval ref blockId) manager)).heap
      found = retained (manager.heap ref) times := by
    rw [heap, same, run_dropSteps]
    exact Function.update_self ..
  rw [content]
  refine ⟨accounted.layout_empty empty, fun time record stored => ?_⟩
  exact absurd empty (accounted.occupied.mp ⟨time, record, stored⟩)

def failedRemoval (manager : BlockManager) (ref : BlockRef) (blockId : Nat) (done : List RemovalStep) (reading : Bool) :
    BlockManager :=
  let stopped := done.foldl (runRemoval ref blockId) manager
  if reading then stopped.withoutTemp blockId else stopped

/-- Where `remove_records` fails decides whether the cached block still describes the data file. -/
theorem failed_removal_usable_iff (manager : BlockManager) (blockId : Nat) (ref : BlockRef)
    (cached : manager.getRead blockId = some ref) (name : (manager.heap ref).blockId = blockId)
    (layout : (manager.heap ref).Layout) (file : File) (data : manager.disk.data[blockId]? = some file)
    (times : List Nat) (steps : List RemovalStep) (stopped : steps <+: manager.removalSteps ref times) (reading : Bool) :
    LeftUsable manager (manager.failedRemoval ref blockId steps reading) blockId ref ↔
      StopsSafely (manager.heap ref) file times (phaseOf steps) := by
  -- neither the block nor its data file depends on the temporary one
  have same : LeftUsable manager (manager.failedRemoval ref blockId steps reading) blockId ref ↔
      LeftUsable manager (steps.foldl (runRemoval ref blockId) manager) blockId ref := by
    cases reading <;> exact Iff.rfl
  rw [same]
  have content : manager.dataOf blockId = file := by rw [dataOf, data, Option.getD_some]
  cases stopsAt manager ref times file (by rw [name]; exact data) steps stopped with
  | still still dropped recorded =>
    obtain ⟨temp, run⟩ := run_still ref blockId steps still manager
    obtain ⟨memory, _⟩ := appendLog_memory ((logged steps).map .removeRecord) manager blockId
    rw [run, phaseOf, phase_still steps still, List.nil_append]
    refine usable_removing ?_ layout (gone steps) (by simp [setTemp, setBlock]) ?_
    · simpa [setTemp, setBlock, getRead, memory.write, memory.read] using cached
    · simp [setTemp, setBlock, dataOf, memory.data]
  | @emptying rest empty reached =>
    obtain ⟨usable, phase⟩ := usable_emptying cached layout times empty rest reached
    have accounted := accounted_retained times layout.toAccounted
    rw [phase]
    refine iff_of_true usable fun record member _ => absurd empty (accounted.occupied.mp ?_)
    exact ⟨record.timestamp, record, (Block.mem_records _ record).mp member⟩
  | damaged buffers =>
    rw [phaseOf, List.foldl_append, List.foldl_append (f := RemovalPhase.next)]
    refine iff_of_true (fun found present => ?_) trivial
    simp [runRemoval, getRead_markBlockCorrupted] at present
  | exchanging buffers readable bytes reached =>
    rw [phaseOf, List.foldl_append, List.foldl_append (f := RemovalPhase.next), run_copied, bytes]
    exact usable_exchanging cached layout file content times readable _ _ reached _

end Phases

end ReductStore.BlockManager

namespace ReductStore.BlockManager

def pairEntry : BlockManager :=
  ((smallEntry.beginWrite (smallWrite 1 4)).2.beginWrite (smallWrite 3 5)).2.runWriter
    { blockId := 1, recordTimestamp := 3, offset := 4, contentSize := 5 } (contentOf [[5, 6, 7, 8, 9]]) |>.2

theorem pairEntry_layout : (pairEntry.heap 0).Layout := by
  have written := ((laid_created "entry" "bucket" "entry" .filesystem []).beginWrite (smallWrite 1 4)).beginWrite
    (smallWrite 3 5)
  have received : ((((smallEntry.beginWrite (smallWrite 1 4)).2.beginWrite (smallWrite 3 5)).2.modifyData 1
      (File.writeAt · 4 [5, 6, 7, 8, 9]))).Laid := written.congr rfl rfl
  exact (received.finishWriteRecord 1 .finished 3).heap 0

def secondRecord : Record :=
  { timestamp := 3, beginPos := 4, endPos := 9, state := .finished, labels := [], contentType := "text/plain" }

theorem failed_removal_usable_at_last :
    LeftUsable pairEntry (pairEntry.failedRemoval 0 1 [.dropRecord 3] false) 1 0 := by
  have cached : pairEntry.getRead 1 = some 0 := by decide +kernel
  have name : (pairEntry.heap 0).blockId = 1 := by decide +kernel
  have data : pairEntry.disk.data[1]? = some [0, 0, 0, 0, 5, 6, 7, 8, 9, 0] := by decide +kernel
  refine (failed_removal_usable_iff pairEntry 1 0 cached name pairEntry_layout _ data [3] [.dropRecord 3] ?_ false).mpr ?_
  · exact ⟨_, rfl⟩
  · show ∀ record ∈ (retained (pairEntry.heap 0) [3]).records, _ → _
    decide +kernel

theorem failed_removal_overlaps :
    (pairEntry.heap 0).Layout ∧ pairEntry.getRead 1 = some 0 ∧ [.dropRecord 1] <+: pairEntry.removalSteps 0 [1] ∧
      ¬ LeftUsable pairEntry (pairEntry.failedRemoval 0 1 [.dropRecord 1] false) 1 0 ∧
      ((pairEntry.failedRemoval 0 1 [.dropRecord 1] false).heap 0).getRecord 3 = some secondRecord ∧
      ((pairEntry.failedRemoval 0 1 [.dropRecord 1] false).beginWrite (smallWrite 5 4)).1 =
        .ok { blockId := 1, recordTimestamp := 5, offset := 5, contentSize := 4 } := by
  have found : ((pairEntry.failedRemoval 0 1 [.dropRecord 1] false).heap 0).getRecord 3 = some secondRecord := by
    decide +kernel
  refine ⟨pairEntry_layout, by decide +kernel, ⟨_, rfl⟩, fun usable => ?_, found, by decide +kernel⟩
  have layout := (usable 0 (by decide +kernel)).1
  have bound := layout.end_le found (by decide)
  have size : ((pairEntry.failedRemoval 0 1 [.dropRecord 1] false).heap 0).size = 5 := by decide +kernel
  rw [size] at bound
  exact absurd bound (by decide)

end ReductStore.BlockManager
