import ReductStore.Storage.Removal

set_option autoImplicit false

namespace ReductStore

inductive RemovalStage where
  | drop (times : List Nat)
  | log (time : Nat) (times : List Nat)
  | copy (records : List Record) (readBytes totalOffset position : Nat) (positions : List (Nat × Nat × Nat))
  | rest (steps : List BlockManager.RemovalStep)
  deriving DecidableEq

namespace BlockManager

open TreeMap

variable [Codec]

def removalSection (ref : BlockRef) (blockId : Nat) : RemovalStage × BlockManager → RemovalStage × BlockManager
  | (.drop [], manager) =>
    if (manager.heap ref).recordCount = 0 then (.rest removeBlockSteps, manager)
    else (.copy (manager.heap ref).records 0 0 0 [], manager.runRemoval ref blockId .openTemp)
  | (.drop (time :: times), manager) => (.log time times, manager.runRemoval ref blockId (.dropRecord time))
  | (.log time times, manager) => (.drop times, manager.runRemoval ref blockId (.logRemoval time))
  | (.copy [] _ _ _ positions, manager) => (.rest (replaceSteps positions), manager)
  | (.copy (record :: rest) readBytes totalOffset position positions, manager) =>
    if readBytes < record.length then
      match readInChunks (manager.dataPath blockId) manager.disk.data[blockId]? record.beginPos record.length readBytes with
      | .error failure => (.rest [.abandon failure.unexpectedEof], manager)
      | .ok (buffer, read) =>
        (.copy (record :: rest) (readBytes + read) totalOffset (position + buffer.length) positions,
          manager.runRemoval ref blockId (.writeTemp position buffer))
    else
      (.copy rest 0 (totalOffset + readBytes) position
        (positions ++ [(record.timestamp, totalOffset, totalOffset + readBytes)]), manager)
  | (.rest [], manager) => (.rest [], manager)
  | (.rest (step :: steps), manager) => (.rest steps, manager.runRemoval ref blockId step)

def Removing (ref : BlockRef) (blockId : Nat) : RemovalStage × BlockManager → RemovalStage × BlockManager → Prop :=
  Relation.ReflTransGen fun before after => after = removalSection ref blockId before

section Uninterrupted

variable (ref : BlockRef) (blockId : Nat)

theorem Removing.next {ref : BlockRef} {blockId : Nat} {before after : RemovalStage × BlockManager}
    (removing : Removing ref blockId (removalSection ref blockId before) after) : Removing ref blockId before after :=
  .head rfl removing

theorem removing_rest (steps : List RemovalStep) (manager : BlockManager) :
    Removing ref blockId (.rest steps, manager) (.rest [], steps.foldl (runRemoval ref blockId) manager) := by
  induction steps generalizing manager with
  | nil => exact .refl
  | cons step steps ih => exact (ih (manager.runRemoval ref blockId step)).next

theorem removing_ended {ref : BlockRef} {blockId : Nat} {manager : BlockManager} {reply : RemovalStage × BlockManager}
    (removing : Removing ref blockId (.rest [], manager) reply) : reply = (.rest [], manager) := by
  induction removing with
  | refl => rfl
  | tail _ step ih => rw [step, ih, removalSection]

theorem removing_drop (times : List Nat) (manager : BlockManager) :
    Removing ref blockId (.drop times, manager) (.drop [], (dropSteps times).foldl (runRemoval ref blockId) manager) := by
  induction times generalizing manager with
  | nil => exact .refl
  | cons time times ih =>
    exact (ih ((manager.runRemoval ref blockId (.dropRecord time)).runRemoval ref blockId (.logRemoval time))).next.next

omit [Codec] in
theorem writeTemps_append (position : Nat) (front back : List (List UInt8)) :
    writeTemps position (front ++ back) = writeTemps position front ++ writeTemps (position + front.flatten.length) back := by
  induction front generalizing position with
  | nil => simp [writeTemps]
  | cons buffer rest ih => simp [writeTemps, ih, Nat.add_assoc]

theorem writeTemps_source (position : Nat) (buffers : List (List UInt8)) (manager : BlockManager) :
    ((writeTemps position buffers).foldl (runRemoval ref blockId) manager).disk.data = manager.disk.data ∧
      ((writeTemps position buffers).foldl (runRemoval ref blockId) manager).path = manager.path := by
  induction buffers generalizing position manager with
  | nil => exact ⟨rfl, rfl⟩
  | cons buffer rest ih => exact ih (position + buffer.length) (manager.runRemoval ref blockId (.writeTemp position buffer))

def afterRecord (record : Record) (rest : List Record) (totalOffset position : Nat) (positions : List (Nat × Nat × Nat)) :
    Except ReadFailure Nat → RemovalStage
  | .ok readBytes =>
    .copy rest 0 (totalOffset + readBytes) position (positions ++ [(record.timestamp, totalOffset, totalOffset + readBytes)])
  | .error failure => .rest [.abandon failure.unexpectedEof]

theorem removing_record (record : Record) (rest : List Record) (totalOffset : Nat) (positions : List (Nat × Nat × Nat))
    (turns readBytes position : Nat) (manager : BlockManager) (enough : record.length ≤ readBytes + turns)
    (buffers : List (List UInt8)) (result : Except ReadFailure Nat)
    (copied : copyRecord (manager.dataPath blockId) manager.disk.data[blockId]? record.beginPos record.length turns readBytes =
      (buffers, result)) :
    Removing ref blockId (.copy (record :: rest) readBytes totalOffset position positions, manager)
      (afterRecord record rest totalOffset (position + buffers.flatten.length) positions result,
        (writeTemps position buffers).foldl (runRemoval ref blockId) manager) := by
  induction turns generalizing readBytes position manager buffers with
  | zero =>
    have ended : ¬ readBytes < record.length := by omega
    obtain ⟨rfl, rfl⟩ : [] = buffers ∧ Except.ok readBytes = result := by simpa [copyRecord] using copied
    refine Removing.next ?_
    simp only [removalSection, if_neg ended]
    exact .refl
  | succ turns ih =>
    by_cases left : readBytes < record.length
    · refine Removing.next ?_
      simp only [copyRecord, if_pos left] at copied
      simp only [removalSection, if_pos left]
      cases read : readInChunks (manager.dataPath blockId) manager.disk.data[blockId]? record.beginPos record.length readBytes with
      | error failure =>
        simp only [read, Prod.mk.injEq] at copied
        obtain ⟨rfl, rfl⟩ := copied
        exact .refl
      | ok chunk =>
        obtain ⟨buffer, size⟩ := chunk
        simp only [read, Prod.mk.injEq] at copied
        obtain ⟨rfl, rfl⟩ := copied
        have progress := (readInChunks_bounds read).1
        have more := ih (readBytes + size) (position + buffer.length) (manager.runRemoval ref blockId (.writeTemp position buffer))
          (by omega) _ rfl
        rw [List.flatten_cons, List.length_append, ← Nat.add_assoc]
        exact more
    · obtain ⟨rfl, rfl⟩ : [] = buffers ∧ Except.ok readBytes = result := by simpa [copyRecord, left] using copied
      refine Removing.next ?_
      simp only [removalSection, if_neg left]
      exact .refl

theorem removing_records (records : List Record) (totalOffset : Nat) (positions : List (Nat × Nat × Nat)) (position : Nat)
    (manager : BlockManager) (buffers : List (List UInt8)) (result : Except ReadFailure (List (Nat × Nat × Nat)))
    (copied : copyRecords (manager.dataPath blockId) manager.disk.data[blockId]? records totalOffset = (buffers, result)) :
    Removing ref blockId (.copy records 0 totalOffset position positions, manager)
      (.rest (finalSteps (result.map (positions ++ ·))), (writeTemps position buffers).foldl (runRemoval ref blockId) manager) := by
  induction records generalizing totalOffset positions position manager buffers result with
  | nil =>
    obtain ⟨rfl, rfl⟩ : [] = buffers ∧ Except.ok [] = result := by simpa [copyRecords] using copied
    refine Removing.next ?_
    simp only [removalSection, Except.map, finalSteps, List.append_nil]
    exact .refl
  | cons record rest ih =>
    cases first : copyRecord (manager.dataPath blockId) manager.disk.data[blockId]? record.beginPos record.length
      record.length 0 with
    | mk written copy =>
      have head := removing_record ref blockId record rest totalOffset positions record.length 0 position manager (by omega)
        written copy first
      cases copy with
      | error failure =>
        simp only [copyRecords, first, Prod.mk.injEq] at copied
        obtain ⟨rfl, rfl⟩ := copied
        exact head
      | ok readBytes =>
        simp only [copyRecords, first, Prod.mk.injEq] at copied
        obtain ⟨rfl, rfl⟩ := copied
        set middle := (writeTemps position written).foldl (runRemoval ref blockId) manager with middleEq
        obtain ⟨data, path⟩ := writeTemps_source ref blockId position written manager
        have source : copyRecords (middle.dataPath blockId) middle.disk.data[blockId]? rest (totalOffset + readBytes) =
            copyRecords (manager.dataPath blockId) manager.disk.data[blockId]? rest (totalOffset + readBytes) := by
          rw [dataPath, dataPath, data, path]
        have tail := ih (totalOffset + readBytes) (positions ++ [(record.timestamp, totalOffset, totalOffset + readBytes)])
          (position + written.flatten.length) middle _ _ source
        rw [writeTemps_append, List.foldl_append]
        refine head.trans ?_
        cases rest_ : copyRecords (manager.dataPath blockId) manager.disk.data[blockId]? rest (totalOffset + readBytes) with
        | mk more result =>
          rw [rest_] at tail
          cases result with
          | error failure => exact tail
          | ok places =>
            simp only [Except.map, List.append_assoc, List.singleton_append] at tail
            exact tail

omit [Codec] in
theorem path_appendLog (entries : List WalEntry) (manager : BlockManager) :
    (manager.appendLog blockId entries).path = manager.path := by
  induction entries generalizing manager with
  | nil => rfl
  | cons entry rest ih => exact ih (manager.walAppend blockId entry)

theorem removing_whole (manager : BlockManager) (times : List Nat) (name : (manager.heap ref).blockId = blockId) :
    Removing ref blockId (.drop times, manager)
      (.rest [], (manager.removalSteps ref times).foldl (runRemoval ref blockId) manager) := by
  have dropped := removing_drop ref blockId times manager
  rw [run_dropSteps] at dropped
  set middle := (manager.appendLog blockId (times.map .removeRecord)).setBlock ref (retained (manager.heap ref) times)
  have block : middle.heap ref = retained (manager.heap ref) times := by simp [middle, setBlock]
  have title : (retained (manager.heap ref) times).blockId = blockId := by rw [blockId_retained, name]
  obtain ⟨data, _⟩ := dropped_data manager ref blockId times
  refine dropped.trans ?_
  rw [removalSteps, List.foldl_append, run_dropSteps]
  refine Removing.next ?_
  by_cases empty : (retained (manager.heap ref) times).recordCount = 0
  · simp only [removalSection, block, if_pos empty]
    exact removing_rest ref blockId removeBlockSteps middle
  · cases copied : copyRecords (manager.dataPath blockId) manager.disk.data[blockId]?
      (retained (manager.heap ref) times).records 0 with
    | mk buffers result =>
      simp only [removalSection, block, if_neg empty, compactSteps, title, copied]
      have source : copyRecords ((middle.runRemoval ref blockId .openTemp).dataPath blockId)
          (middle.runRemoval ref blockId .openTemp).disk.data[blockId]? (retained (manager.heap ref) times).records 0 =
            (buffers, result) := by
        rw [← copied, dataPath, dataPath, ← data, ← path_appendLog blockId (times.map .removeRecord) manager]
        rfl
      have last := removing_records ref blockId _ 0 [] 0 _ buffers result source
      have same : result.map (([] : List (Nat × Nat × Nat)) ++ ·) = result := by cases result <;> rfl
      rw [same] at last
      refine last.trans ?_
      have final := removing_rest ref blockId (finalSteps result)
        ((writeTemps 0 buffers).foldl (runRemoval ref blockId) (middle.runRemoval ref blockId .openTemp))
      rw [← List.foldl_append] at final
      exact final

end Uninterrupted

end BlockManager

end ReductStore
