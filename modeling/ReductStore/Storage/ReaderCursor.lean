import ReductStore.Condition.MachineInt
import ReductStore.Query.NextSections
import ReductStore.Shared.Machine

set_option autoImplicit false

namespace ReductStore

open Condition

inductive SeekFrom where
  | start (offset : Nat)
  | fromEnd (offset : Int)
  | current (offset : Int)
  deriving DecidableEq

inductive ReaderCall where
  | read (length : Nat)
  | seek (position : SeekFrom)
  | readChunk
  deriving DecidableEq

structure FileAnswer where
  path : String
  content : Option File
  limit : Nat

inductive ReaderReply where
  | bytes (bytes : List UInt8)
  | position (position : Nat)
  | finished
  | failed (failure : ReductError)
  deriving DecidableEq

namespace OpenReader

def readSync (build : Build) (state : OpenReader) (length : Nat) (answer : FileAnswer) :
    Option (Except String (List UInt8) × OpenReader) :=
  match state.reader.file with
  | none => some (.ok [], state)
  | some _ =>
    (build.addU64 state.reader.offset state.position).bind fun start =>
      match answer.content with
      | none => some (.error ("[InternalServerError] File " ++ answer.path ++ " does not exist"), state)
      | some content =>
        let bytes := (File.range content start (start + length)).take (answer.limit + 1)
        (build.addU64 state.position bytes.length).map fun position => (.ok bytes, { state with position })

def readInto (build : Build) (state : OpenReader) (length : Nat) (answer : FileAnswer) : Option (ReaderReply × OpenReader) :=
  (state.readSync build length answer).map fun result =>
    match result with
    | (.ok bytes, state) => (.bytes bytes, state)
    | (.error failure, state) => (.failed (internalServerError failure), state)

def seekTarget (build : Build) (state : OpenReader) : SeekFrom → Option Int
  | .start offset => some (asI64 offset)
  | .fromEnd offset => build.addI64 (asI64 state.reader.contentSize) offset
  | .current offset => build.addI64 (asI64 state.position) offset

def seekTo (build : Build) (state : OpenReader) (position : SeekFrom) : Option (ReaderReply × OpenReader) :=
  (state.seekTarget build position).map fun target =>
    if target > asI64 state.reader.contentSize ∨ target < 0 then
      (.failed (internalServerError "Seek position out of bounds"), state)
    else (.position (asU64 target), { state with position := asU64 target })

def nextChunk (build : Build) (state : OpenReader) (answer : FileAnswer) : Option (ReaderReply × OpenReader) :=
  (build.subU64 state.reader.contentSize state.position).bind fun rest =>
    let size := min rest maxIoBufferSize
    if size = 0 then some (.finished, state)
    else
      (state.readSync build size answer).map fun result =>
        match result with
        | (.ok [], state) => (.failed (internalServerError "Failed to read record chunk: EOF"), state)
        | (.ok bytes, state) => (.bytes bytes, state)
        | (.error failure, state) => (.failed (internalServerError ("Failed to read record chunk: " ++ failure)), state)

def perform (build : Build) (state : OpenReader) (call : ReaderCall) (answer : FileAnswer) :
    Option (ReaderReply × OpenReader) :=
  match call with
  | .read length => state.readInto build length answer
  | .seek position => state.seekTo build position
  | .readChunk => state.nextChunk build answer

def apply (build : Build) (state : OpenReader) (step : ReaderCall × FileAnswer) : OpenReader :=
  ((state.perform build step.1 step.2).map Prod.snd).getD state

structure Safe (build : Build) (state : OpenReader) (call : ReaderCall) (answer : FileAnswer) : Prop where
  exact_ : state.perform .debug call answer ≠ none ∧ state.perform build call answer = state.perform .debug call answer
  inside : ∀ reply after, state.perform build call answer = some (reply, after) →
    after.reader = state.reader ∧ after.position ≤ state.reader.contentSize ∧
      ∀ bytes, reply = .bytes bytes → bytes ≠ [] → state.position + bytes.length ≤ state.reader.contentSize ∧
        ∃ content, answer.content = some content ∧
          bytes = File.range content (state.reader.offset + state.position)
            (state.reader.offset + state.position + bytes.length)

def Proper (state : OpenReader) : ReaderCall → Prop
  | .read length => state.reader.file = none ∨ length ≤ state.reader.contentSize - state.position
  | .seek (.start _) => True
  | .seek (.fromEnd offset) => state.reader.contentSize + offset < 2 ^ 63
  | .seek (.current offset) => state.position + offset < 2 ^ 63
  | .readChunk => True

def Typed : ReaderCall → Prop
  | .read length => length < 2 ^ 63
  | .seek (.start offset) => offset < 2 ^ 64
  | .seek (.fromEnd offset) | .seek (.current offset) => InI64 offset
  | .readChunk => True

section Calls

variable {build : Build} {state : OpenReader} {answer : FileAnswer}

structure Placed (state : OpenReader) : Prop where
  bounded : state.reader.offset + state.reader.contentSize < 2 ^ 63
  within : state.position ≤ state.reader.contentSize

theorem Placed.readSync (placed : state.Placed) {length : Nat} (fits : length ≤ state.reader.contentSize - state.position)
    (answer : FileAnswer) :
    ∃ reply after, (∀ build, state.readSync build length answer = some (reply, after)) ∧ after.reader = state.reader ∧
      after.position ≤ state.reader.contentSize ∧
      ∀ bytes, reply = .ok bytes → bytes ≠ [] → state.position + bytes.length ≤ state.reader.contentSize ∧
        ∃ content, answer.content = some content ∧
          bytes = File.range content (state.reader.offset + state.position)
            (state.reader.offset + state.position + bytes.length) := by
  obtain ⟨bounded, within⟩ := placed
  simp only [OpenReader.readSync]
  cases state.reader.file with
  | none => exact ⟨_, _, fun _ => rfl, rfl, within, fun bytes same nonempty => absurd (Except.ok.inj same).symm nonempty⟩
  | some blockId =>
    simp only [Build.addU64_small (show state.reader.offset + state.position < 2 ^ 64 by omega), Option.bind_some]
    cases content : answer.content with
    | none => exact ⟨_, _, fun _ => rfl, rfl, within, fun bytes impossible => by cases impossible⟩
    | some data =>
      simp only
      generalize state.reader.offset + state.position = start
      have short : ((File.range data start (start + length)).take (answer.limit + 1)).length ≤ length := by
        simp only [File.range, List.length_take, List.length_drop]
        omega
      have exactly : (File.range data start (start + length)).take (answer.limit + 1) = File.range data start
          (start + ((File.range data start (start + length)).take (answer.limit + 1)).length) := by
        rw [File.take_range, File.range_exact]
      generalize (File.range data start (start + length)).take (answer.limit + 1) = read at short exactly ⊢
      refine ⟨.ok read, { state with position := state.position + read.length }, fun build => ?_, rfl, ?_,
        fun bytes same _ => ?_⟩
      · rw [Build.addU64_small (by omega)]
        rfl
      · simp only
        omega
      · obtain rfl := Except.ok.inj same
        exact ⟨by omega, data, rfl, exactly⟩

theorem Safe.of_perform {call : ReaderCall} (reply : ReaderReply) (after : OpenReader)
    (done : ∀ build, state.perform build call answer = some (reply, after)) (same : after.reader = state.reader)
    (within : after.position ≤ state.reader.contentSize)
    (inside : ∀ bytes, reply = .bytes bytes → bytes ≠ [] → state.position + bytes.length ≤ state.reader.contentSize ∧
      ∃ content, answer.content = some content ∧
        bytes = File.range content (state.reader.offset + state.position)
          (state.reader.offset + state.position + bytes.length)) : state.Safe build call answer where
  exact_ := by simp [done]
  inside other final result := by
    obtain ⟨rfl, rfl⟩ := Prod.mk.inj (Option.some.inj ((done build).symm.trans result))
    exact ⟨same, within, inside⟩

theorem Placed.safe_read (placed : state.Placed) {length : Nat} (proper : state.Proper (.read length)) (answer : FileAnswer) :
    state.Safe build (.read length) answer := by
  rcases proper with empty | fits
  · refine Safe.of_perform (.bytes []) state (fun build => ?_) rfl placed.within fun bytes same nonempty => ?_
    · simp [perform, readInto, OpenReader.readSync, empty]
    · exact absurd (ReaderReply.bytes.inj same).symm nonempty
  · obtain ⟨reply, after, done, same, within, inside⟩ := placed.readSync fits answer
    cases reply with
    | ok bytes =>
      refine Safe.of_perform (.bytes bytes) after (fun build => by simp [perform, readInto, done]) same within fun other equal => ?_
      obtain rfl := ReaderReply.bytes.inj equal
      exact inside _ rfl
    | error failure =>
      exact Safe.of_perform (.failed (internalServerError failure)) after (fun build => by simp [perform, readInto, done]) same
        within fun _ impossible => by cases impossible

theorem Placed.safe_chunk (placed : state.Placed) (answer : FileAnswer) : state.Safe build .readChunk answer := by
  have within := placed.within
  by_cases finished : min (state.reader.contentSize - state.position) maxIoBufferSize = 0
  · refine Safe.of_perform .finished state (fun build => ?_) rfl within fun _ impossible => by
      cases impossible
    simp only [perform, nextChunk, Build.subU64_small within, Option.bind_some, if_pos finished]
  · obtain ⟨reply, after, done, same, within, inside⟩ :=
      placed.readSync (show min (state.reader.contentSize - state.position) maxIoBufferSize ≤ _ from min_le_left _ _) answer
    have result (build : Build) : state.perform build .readChunk answer = some (match (reply, after) with
        | (.ok [], state) => (.failed (internalServerError "Failed to read record chunk: EOF"), state)
        | (.ok bytes, state) => (.bytes bytes, state)
        | (.error failure, state) => (.failed (internalServerError ("Failed to read record chunk: " ++ failure)), state)) := by
      simp only [perform, nextChunk, Build.subU64_small placed.within, Option.bind_some, if_neg finished, done, Option.map_some]
    rcases reply with failure | _ | ⟨byte, bytes⟩
    · exact Safe.of_perform _ _ result same within fun _ impossible => by cases impossible
    · exact Safe.of_perform _ _ result same within fun _ impossible => by cases impossible
    · refine Safe.of_perform _ _ result same within fun other equal => ?_
      obtain rfl := ReaderReply.bytes.inj equal
      exact inside _ rfl

theorem Placed.safe_target (placed : state.Placed) {position : SeekFrom} {target : Int}
    (found : ∀ build, state.seekTarget build position = some target) (small : target < 2 ^ 63) (answer : FileAnswer) :
    state.Safe build (.seek position) answer := by
  obtain ⟨bounded, within⟩ := placed
  have size : asI64 state.reader.contentSize = state.reader.contentSize := asI64_small (by omega)
  by_cases refused : target > asI64 state.reader.contentSize ∨ target < 0
  · refine Safe.of_perform (.failed (internalServerError "Seek position out of bounds")) state (fun build => ?_) rfl within
      fun _ impossible => ?_
    · simp [perform, seekTo, found, if_pos refused]
    · cases impossible
  · have value := asU64_small (show 0 ≤ target by omega) small
    refine Safe.of_perform (.position (asU64 target)) { state with position := asU64 target } (fun build => ?_) rfl (by simp only; omega) fun _ impossible => ?_
    · simp only [perform, seekTo, found, Option.map_some, if_neg refused]
    · cases impossible

theorem Placed.safe (placed : state.Placed) {call : ReaderCall} (typed : Typed call) (proper : state.Proper call)
    (answer : FileAnswer) : state.Safe build call answer := by
  have bounded := placed.bounded
  have within := placed.within
  cases call with
  | read length => exact placed.safe_read proper answer
  | readChunk => exact placed.safe_chunk answer
  | seek position =>
    cases position with
    | start offset =>
      refine placed.safe_target (fun _ => rfl) ?_ answer
      rw [asI64, wrapI64]
      omega
    | fromEnd offset =>
      have small : (state.reader.contentSize : Int) + offset < 2 ^ 63 := proper
      have target : asI64 state.reader.contentSize + offset = state.reader.contentSize + offset := by
        rw [asI64_small (by omega)]
      have lower : -2 ^ 63 ≤ offset := typed.1
      refine placed.safe_target (fun build => ?_) small answer
      rw [seekTarget, Build.addI64_small (by rw [target]; exact ⟨by omega, small⟩), target]
    | current offset =>
      have small : (state.position : Int) + offset < 2 ^ 63 := proper
      have target : asI64 state.position + offset = state.position + offset := by rw [asI64_small (by omega)]
      have lower : -2 ^ 63 ≤ offset := typed.1
      refine placed.safe_target (fun build => ?_) small answer
      rw [seekTarget, Build.addI64_small (by rw [target]; exact ⟨by omega, small⟩), target]

def generous (state : OpenReader) (length : Nat) : FileAnswer :=
  { path := "", content := some (List.replicate (state.reader.offset + state.position + length) 0), limit := length }

theorem Placed.proper (placed : state.Placed) {call : ReaderCall} (typed : Typed call)
    (safe : ∀ answer, state.Safe build call answer) : state.Proper call := by
  obtain ⟨bounded, within⟩ := placed
  cases call with
  | readChunk => trivial
  | read length =>
    by_contra improper
    obtain ⟨present, long⟩ := not_or.mp improper
    obtain ⟨blockId, file⟩ := Option.ne_none_iff_exists'.mp present
    have small : length < 2 ^ 63 := typed
    -- the buffer is filled with bytes from behind the record
    have read : ((File.range (List.replicate (state.reader.offset + state.position + length) 0)
        (state.reader.offset + state.position) (state.reader.offset + state.position + length)).take (length + 1)).length =
        length := by
      simp [File.range]
    have done : ∃ bytes, state.perform build (.read length) (state.generous length) =
        some (.bytes bytes, { state with position := state.position + length }) := by
      refine ⟨(File.range (List.replicate (state.reader.offset + state.position + length) 0)
        (state.reader.offset + state.position) (state.reader.offset + state.position + length)).take (length + 1), ?_⟩
      simp only [perform, readInto, OpenReader.readSync, file, generous,
        Build.addU64_small (show state.reader.offset + state.position < 2 ^ 64 by omega), Option.bind_some, read,
        Build.addU64_small (show state.position + length < 2 ^ 64 by omega), Option.map_some]
    obtain ⟨bytes, done⟩ := done
    have inside := ((safe (state.generous length)).inside _ _ done).2.1
    simp only at inside
    omega
  | seek position =>
    -- an answer does not matter
    have fine := (safe (state.generous 0)).exact_.1
    cases position with
    | start offset => trivial
    | fromEnd offset =>
      by_contra improper
      refine fine ?_
      have large : ¬ InI64 (asI64 state.reader.contentSize + offset) := by
        rw [asI64_small (by omega)]
        exact fun inside => improper inside.2
      simp [perform, seekTo, seekTarget, Build.addI64_panic large]
    | current offset =>
      by_contra improper
      refine fine ?_
      have large : ¬ InI64 (asI64 state.position + offset) := by
        rw [asI64_small (by omega)]
        exact fun inside => improper inside.2
      simp [perform, seekTo, seekTarget, Build.addI64_panic large]

theorem Placed.apply (placed : state.Placed) {call : ReaderCall} {answer : FileAnswer}
    (safe : state.Safe build call answer) :
    (state.apply build (call, answer)).Placed ∧ (state.apply build (call, answer)).reader = state.reader := by
  rw [OpenReader.apply]
  cases done : state.perform build call answer with
  | none => exact ⟨placed, rfl⟩
  | some result =>
    obtain ⟨same, within, -⟩ := safe.inside result.1 result.2 done
    refine ⟨⟨?_, ?_⟩, same⟩
    · simpa [same] using placed.bounded
    · simpa [same] using within

/-- A reader whose calls ask for nothing behind the record stays inside it, and it is these calls that are safe whatever
    the file system does. -/
theorem stays_inside (build : Build) (reader : RecordReader) (bounded : reader.offset + reader.contentSize < 2 ^ 63)
    {state : OpenReader}
    (run : Runs (OpenReader.apply build) (fun state step => Typed step.1 ∧ state.Proper step.1) { reader, position := 0 }
      state) :
    state.reader = reader ∧ state.position ≤ reader.contentSize ∧
      ∀ call, Typed call → ((∀ answer, state.Safe build call answer) ↔ state.Proper call) := by
  obtain ⟨placed, same⟩ : state.Placed ∧ state.reader = reader := by
    refine run.invariant (fun state => state.Placed ∧ state.reader = reader) ⟨⟨bounded, Nat.zero_le _⟩, rfl⟩ ?_
    intro current step held allowed
    obtain ⟨placed, kept⟩ := held.1.apply (held.1.safe allowed.1 allowed.2 step.2)
    exact ⟨placed, kept.trans held.2⟩
  refine ⟨same, same ▸ placed.within, fun call typed => ⟨placed.proper typed, fun proper answer => ?_⟩⟩
  exact placed.safe typed proper answer

end Calls

end OpenReader

end ReductStore

namespace ReductStore.OpenReader

def oneByteReader : RecordReader :=
  { recordMeta := { timestamp := 1, beginPos := 0, endPos := 1, state := .finished, contentType := "", labels := [] }
    entryName := "entry", file := some 1, offset := 0, contentSize := 1 }

def twoBytes : FileAnswer := { path := "1.blk", content := some [5, 6], limit := 9 }

def twoByteReader : RecordReader := { oneByteReader with contentSize := 2 }

instance (state : OpenReader) (call : ReaderCall) : Decidable (Typed call ∧ state.Proper call) := by
  rcases call with _ | (_ | _ | _) | _ <;> unfold Typed Proper <;> infer_instance

def readsTwice : List (ReaderCall × FileAnswer) :=
  [(.read 1, twoBytes), (.seek (.current (-1)), twoBytes), (.readChunk, twoBytes)]

def readTwice : OpenReader := readsTwice.foldl (OpenReader.apply .debug) { reader := twoByteReader, position := 0 }

theorem stays_inside_read :
    readTwice.position = 2 ∧ (∀ answer, OpenReader.Safe .debug readTwice (.seek (.fromEnd (-2))) answer) ∧
      ¬ ∀ answer, OpenReader.Safe .debug readTwice (.read 1) answer := by
  obtain ⟨-, -, safe⟩ := stays_inside .debug twoByteReader (by decide) (.of_list readsTwice _ (by decide +kernel))
  have back : Typed (.seek (.fromEnd (-2))) ∧ readTwice.Proper (.seek (.fromEnd (-2))) := by decide +kernel
  have behind : Typed (.read 1) ∧ ¬ (Typed (.read 1) ∧ readTwice.Proper (.read 1)) :=
    ⟨(by decide : 1 < 2 ^ 63), by decide +kernel⟩
  exact ⟨by decide +kernel, (safe _ back.1).mpr back.2,
    fun all => behind.2 ⟨behind.1, (safe _ behind.1).mp all⟩⟩

theorem reads_behind :
    OpenReader.perform .release { reader := oneByteReader, position := 0 } (.read 2) twoBytes =
        some (.bytes [5, 6], { reader := oneByteReader, position := 2 }) ∧
      OpenReader.perform .debug { reader := oneByteReader, position := 2 } .readChunk twoBytes = none ∧
      OpenReader.perform .release { reader := oneByteReader, position := 2 } .readChunk
          { twoBytes with content := some [5, 6, 7] } =
        some (.bytes [7], { reader := oneByteReader, position := 3 }) ∧
      OpenReader.perform .debug { reader := oneByteReader, position := 0 } (.seek (.fromEnd (2 ^ 63 - 1))) twoBytes = none := by
  decide +kernel

end ReductStore.OpenReader
