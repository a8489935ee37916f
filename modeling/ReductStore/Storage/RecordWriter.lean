import ReductStore.Storage.BeginWrite
import ReductStore.Storage.RecordUpdates

set_option autoImplicit false

namespace ReductStore

abbrev WriteChunk := Except ReductError (Option (List UInt8))

namespace BlockManager

def receiveChunk (manager : BlockManager) (context : WriteContext) (written : Nat) (chunk : List UInt8) :
    Except ReductError Nat × BlockManager :=
  let written := written + chunk.length
  if written > context.contentSize then
    (.error (badRequest "Content is bigger than in content-length"), manager)
  else
    (.ok written,
      manager.modifyData context.blockId (File.writeAt · (context.offset + written - chunk.length) chunk))

def contentReceived (context : WriteContext) (written : Nat) : Except ReductError Unit :=
  if written < context.contentSize then .error (badRequest "Content is smaller than in content-length") else .ok ()

def receive (context : WriteContext) :
    BlockManager → Nat → List WriteChunk → Except ReductError Unit × BlockManager
  | manager, written, [] => (contentReceived context written, manager)
  | manager, _, .error failure :: _ => (.error failure, manager)
  | manager, written, .ok none :: _ => (contentReceived context written, manager)
  | manager, written, .ok (some chunk) :: rest =>
    match manager.receiveChunk context written chunk with
    | (.error failure, manager) => (.error failure, manager)
    | (.ok written, manager) => receive context manager written rest

def writtenState : Except ReductError Unit → RecordState
  | .ok _ => .finished
  | .error _ => .errored

variable [Codec]

def runWriter (manager : BlockManager) (context : WriteContext) (messages : List WriteChunk) :
    Except ReductError Unit × BlockManager :=
  let (result, manager) := receive context manager 0 messages
  manager.finishWriteRecord context.blockId (writtenState result) context.recordTimestamp

def writeRecord (manager : BlockManager) (call : WriteCall) (messages : List WriteChunk) :
    Except ReductError Unit × BlockManager :=
  match manager.beginWrite call with
  | (.error failure, manager) => (.error failure, manager)
  | (.ok context, manager) => manager.runWriter context messages

def contentOf (chunks : List (List UInt8)) : List WriteChunk := chunks.map (fun chunk => .ok (some chunk)) ++ [.ok none]

section Content

omit [Codec] in
theorem receive_exact (context : WriteContext) (chunks : List (List UInt8)) (manager : BlockManager) (written : Nat)
    (exact_ : written + (chunks.map List.length).sum = context.contentSize) :
    (receive context manager written (contentOf chunks)).1 = .ok () := by
  induction chunks generalizing manager written with
  | nil =>
    have full : ¬ written < context.contentSize := by simpa using exact_.ge
    simp [contentOf, receive, contentReceived, full]
  | cons chunk rest ih =>
    simp only [List.map_cons, List.sum_cons] at exact_
    have fits : ¬ written + chunk.length > context.contentSize := by omega
    have next := ih (manager.modifyData context.blockId
      (File.writeAt · (context.offset + (written + chunk.length) - chunk.length) chunk)) (written + chunk.length) (by omega)
    simpa only [contentOf, List.map_cons, List.cons_append, receive, receiveChunk, if_neg fits] using next

theorem Sound.receive {manager : BlockManager} (sound : manager.Sound) (context : WriteContext) (written : Nat)
    (messages : List WriteChunk) :
    WriterRun manager (receive context manager written messages).2 ∧
      (BlockManager.receive context manager written messages).2.view = manager.view := by
  induction messages generalizing manager written with
  | nil => exact ⟨.refl, rfl⟩
  | cons message rest ih =>
    cases message with
    | error failure => exact ⟨.refl, rfl⟩
    | ok content =>
      cases content with
      | none => exact ⟨.refl, rfl⟩
      | some chunk =>
        by_cases large : written + chunk.length > context.contentSize
        · simp only [BlockManager.receive, receiveChunk, if_pos large, and_true]
          exact .refl
        · simp only [BlockManager.receive, receiveChunk, if_neg large]
          have step : WriterStep manager _ := WriterStep.write context.blockId
            (File.writeAt · (context.offset + (written + chunk.length) - chunk.length) chunk)
          obtain ⟨run, view⟩ := ih (step.primitive.sound sound) (written + chunk.length)
          exact ⟨.head step run, view⟩

theorem Sound.runWriter {manager : BlockManager} (sound : manager.Sound) (context : WriteContext)
    (messages : List WriteChunk) {block : Block} {record : Record}
    (seen : manager.view context.blockId = some block)
    (found : block.getRecord context.recordTimestamp = some record) :
    WriterRun manager (manager.runWriter context messages).2 ∧
      (manager.runWriter context messages).1 = .ok () ∧
      (manager.runWriter context messages).2.view = Function.update manager.view context.blockId
        (some (block.modifyRecord context.recordTimestamp
          (Record.withState (writtenState (BlockManager.receive context manager 0 messages).1))
          (Record.timestamp_withState _))) := by
  obtain ⟨received, view⟩ := sound.receive context 0 messages
  rw [← view] at seen
  obtain ⟨after, done, steps, changed, _⟩ := (received.reaches.sound sound).finishWriteRecord_steps seen
    (writtenState (BlockManager.receive context manager 0 messages).1) found
  have result : manager.runWriter context messages = (.ok (), after) := done
  rw [result]
  exact ⟨received.trans steps, rfl, by rw [changed, view]⟩

end Content

end BlockManager

end ReductStore
