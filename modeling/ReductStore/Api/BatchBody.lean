import ReductStore.Storage.Record

set_option autoImplicit false

namespace ReductStore.BatchBody

abbrev Bytes := List UInt8

abbrev LengthHeader := Option (Except ReductError UInt64)

def parseContentLengthFromHeader : LengthHeader → Except ReductError UInt64
  | none => .error (unprocessableEntity "content-length header is required")
  | some length => length

def lengthMismatch : ReductError :=
  unprocessableEntity "content-length header does not match the sum of the content-lengths in the headers"

def checkAndGetContentLength (header : LengthHeader) (lengths : List UInt64) : Except ReductError UInt64 := do
  let totalContentLength := lengths.sum
  let headerContentLength ← parseContentLengthFromHeader header
  if totalContentLength ≠ headerContentLength then .error lengthMismatch
  else .ok totalContentLength

def checkAndGetContentLengthV1 (header : LengthHeader) (lengths : List UInt64) : Except ReductError UInt64 :=
  match header with
  | none => .ok lengths.sum
  | some _ => checkAndGetContentLength header lengths

theorem accepted_sum {header : LengthHeader} {lengths : List UInt64} {total : UInt64}
    (accepted : checkAndGetContentLength header lengths = .ok total ∨
      checkAndGetContentLengthV1 header lengths = .ok total) : total = lengths.sum := by
  have checked : checkAndGetContentLength header lengths = .ok total → total = lengths.sum := by
    intro accepted
    cases header with
    | none => cases accepted
    | some length =>
      cases length with
      | error failure => cases accepted
      | ok length =>
        simp only [checkAndGetContentLength, parseContentLengthFromHeader, bind, Except.bind] at accepted
        split at accepted
        · cases accepted
        · cases accepted
          rfl
  rcases accepted with accepted | accepted
  · exact checked accepted
  · cases header with
    | none =>
      cases accepted
      rfl
    | some length => exact checked accepted

inductive StreamEnd where
  | closed
  | broken (message : String)
  | silent

def StreamEnd.failure : StreamEnd → ReductError
  | .closed => badRequest "Content is shorter than expected: no more data to read"
  | .broken message => badRequest ("Error while receiving data chunk: " ++ message)
  | .silent => badRequest "Timeout while receiving data"

structure Source where
  totalContentLen : Int64
  chunks : List Bytes
  ending : StreamEnd

def Source.readChunk (source : Source) : Except ReductError (Bytes × Source) :=
  if source.totalContentLen = 0 then .ok ([], source)
  else
    match source.chunks with
    | [] => .error source.ending.failure
    | chunk :: chunks =>
      .ok (chunk, { source with totalContentLen := source.totalContentLen - Int64.ofNat chunk.length, chunks })

def writeChunk (chunk : Bytes) (written contentSize : Nat) : Bytes × Option Bytes :=
  let toWrite := contentSize - written
  if chunk.length < toWrite then (chunk, none) else (chunk.take toWrite, some (chunk.drop toWrite))

structure Delivery where
  chunks : List Bytes
  ended : Bool

def Delivery.content (delivery : Delivery) : Bytes := delivery.chunks.flatten

inductive Stage where
  | recv
  | writing (contentLength written : Nat) (taken : List Bytes)
  | returned (result : Except ReductError Unit)

structure State where
  source : Source
  chunk : Bytes
  waiting : List UInt64
  delivered : List Delivery
  stage : Stage

structure Reply where
  chunk : Except ReductError Unit
  eofInTime : Bool
  notification : Except ReductError Unit

def State.fail (state : State) (failure : ReductError) : State := { state with stage := .returned (.error failure) }

def State.refill (state : State) (contentLength written : Nat) (taken : List Bytes) : State :=
  match state.source.readChunk with
  | .error failure => state.fail failure
  | .ok (chunk, source) => { state with source, chunk, stage := .writing contentLength written taken }

def step (reply : Reply) (state : State) : State :=
  match state.stage with
  | .returned _ => state
  | .recv =>
    match state.waiting with
    | [] => { state with stage := .returned (.ok ()) }
    | length :: waiting =>
      if state.chunk = [] then State.refill { state with waiting } length.toNat 0 []
      else { state with waiting, stage := .writing length.toNat 0 [] }
  | .writing contentLength written taken =>
    let (part, rest) := writeChunk state.chunk written contentLength
    match reply.chunk with
    | .error failure => state.fail failure
    | .ok () =>
      match rest with
      | none => state.refill contentLength (written + state.chunk.length) (taken ++ [part])
      | some rest =>
        match reply.notification with
        | .error failure => state.fail failure
        | .ok () =>
          -- an EOF that is not taken in time is only logged
          { state with
            chunk := rest
            delivered := state.delivered ++ [{ chunks := taken ++ [part], ended := reply.eofInTime }]
            stage := .recv }

def start (lengths : List UInt64) (total : UInt64) (chunks : List Bytes) (ending : StreamEnd) : State :=
  { source := { totalContentLen := total.toInt64, chunks, ending }
    chunk := []
    waiting := lengths
    delivered := []
    stage := .recv }

def receiveBodyAndWriteRecords (lengths : List UInt64) (total : UInt64) (chunks : List Bytes) (ending : StreamEnd)
    (replies : Nat → Reply) : Nat → State
  | 0 => start lengths total chunks ending
  | turn + 1 => step (replies turn) (receiveBodyAndWriteRecords lengths total chunks ending replies turn)

def Stage.Returned (stage : Stage) : Prop := ∃ result, stage = .returned result

def declared (lengths : List UInt64) : Nat := (lengths.map UInt64.toNat).sum

def Sliced (lengths : List UInt64) (body : Bytes) (delivered : List Delivery) : Prop :=
  ∀ (index : Nat) (inside : index < lengths.length), ∃ delivery, delivered[index]? = some delivery ∧
    delivery.content.length = lengths[index].toNat ∧
    delivery.content = (body.drop (declared (lengths.take index))).take lengths[index].toNat

def Correct (lengths : List UInt64) (total : UInt64) (chunks : List Bytes) (ending : StreamEnd)
    (replies : Nat → Reply) : Prop :=
  (∃ turn, (receiveBodyAndWriteRecords lengths total chunks ending replies turn).stage.Returned) ∧
    ∀ turn, (receiveBodyAndWriteRecords lengths total chunks ending replies turn).stage = .returned (.ok ()) →
      Sliced lengths chunks.flatten (receiveBodyAndWriteRecords lengths total chunks ending replies turn).delivered

def RunsDry (lengths : List UInt64) (chunks : List Bytes) (count : Nat) : Prop :=
  (chunks.take count).flatten.length < declared lengths ∧
    (chunks.take count).flatten.length % 2 ^ 64 = declared lengths % 2 ^ 64

def contents (delivered : List Delivery) : Bytes := (delivered.map Delivery.content).flatten

def Filled (lengths : List UInt64) (delivered : List Delivery) : Prop :=
  delivered.map (fun delivery => delivery.content.length) = lengths.map UInt64.toNat

theorem Filled.length_contents {lengths : List UInt64} {delivered : List Delivery} (filled : Filled lengths delivered) :
    (contents delivered).length = declared lengths := by
  rw [contents, List.length_flatten, List.map_map, declared, ← filled]
  rfl

theorem Filled.append {lengths : List UInt64} {delivered : List Delivery} (filled : Filled lengths delivered)
    {length : UInt64} {delivery : Delivery} (full : delivery.content.length = length.toNat) :
    Filled (lengths ++ [length]) (delivered ++ [delivery]) := by
  simp only [Filled, List.map_append, List.map_cons, List.map_nil, full]
  rw [filled]

@[simp] theorem declared_append (first second : List UInt64) :
    declared (first ++ second) = declared first + declared second := by simp [declared]

@[simp] theorem declared_cons (length : UInt64) (lengths : List UInt64) :
    declared (length :: lengths) = length.toNat + declared lengths := by simp [declared]

@[simp] theorem contents_append (first second : List Delivery) :
    contents (first ++ second) = contents first ++ contents second := by simp [contents]

theorem Filled.sliced {lengths : List UInt64} {delivered : List Delivery} {body rest : Bytes}
    (filled : Filled lengths delivered) (front : contents delivered ++ rest = body) : Sliced lengths body delivered := by
  induction lengths generalizing delivered body with
  | nil =>
    intro index inside
    exact absurd inside (Nat.not_lt_zero index)
  | cons length lengths ih =>
    cases delivered with
    | nil => cases filled
    | cons first others =>
      simp only [Filled, List.map_cons, List.cons.injEq] at filled
      obtain ⟨full, filled⟩ := filled
      have split : body = first.content ++ (contents others ++ rest) := by
        rw [← front]
        simp [contents]
      intro index inside
      cases index with
      | zero =>
        refine ⟨first, rfl, full, ?_⟩
        simp [declared, split, ← full]
      | succ index =>
        obtain ⟨delivery, found, sized, slice⟩ := ih filled rfl index (Nat.lt_of_succ_lt_succ inside)
        refine ⟨delivery, found, sized, ?_⟩
        rw [List.take_succ_cons, declared_cons, ← full, split, List.drop_length_add_append]
        exact slice

structure Feeding (lengths : List UInt64) (chunks : List Bytes) (source : Source) (count : Nat) : Prop where
  stream : source.chunks = chunks.drop count
  total : source.totalContentLen.toBitVec + BitVec.ofNat 64 (chunks.take count).flatten.length =
    BitVec.ofNat 64 (declared lengths)

theorem Feeding.total_zero_iff {lengths : List UInt64} {chunks : List Bytes} {source : Source} {count : Nat}
    (feeding : Feeding lengths chunks source count) :
    source.totalContentLen = 0 ↔ (chunks.take count).flatten.length % 2 ^ 64 = declared lengths % 2 ^ 64 := by
  have total := feeding.total
  have bits : source.totalContentLen = 0 ↔ source.totalContentLen.toBitVec = 0#64 := by
    rw [← Int64.toBitVec_inj]
    rfl
  have numbers : BitVec.ofNat 64 (chunks.take count).flatten.length = BitVec.ofNat 64 (declared lengths) ↔
      (chunks.take count).flatten.length % 2 ^ 64 = declared lengths % 2 ^ 64 := by
    rw [← BitVec.toNat_inj, BitVec.toNat_ofNat, BitVec.toNat_ofNat]
  rw [bits, ← numbers, ← total]
  constructor
  · intro zero
    rw [zero, BitVec.zero_add]
  · intro same
    have left : 0#64 + BitVec.ofNat 64 (chunks.take count).flatten.length =
        source.totalContentLen.toBitVec + BitVec.ofNat 64 (chunks.take count).flatten.length := by
      rw [BitVec.zero_add]
      exact same
    exact (BitVec.add_left_inj _).mp left.symm

inductive ReadCases (lengths : List UInt64) (chunks : List Bytes) (source : Source) (count : Nat) : Prop where
  | dry (zero : (chunks.take count).flatten.length % 2 ^ 64 = declared lengths % 2 ^ 64)
      (read : source.readChunk = .ok ([], source))
  | data (chunk : Bytes) (next : Source) (read : source.readChunk = .ok (chunk, next))
      (fewer : next.chunks.length < source.chunks.length) (feeding : Feeding lengths chunks next (count + 1))
      (longer : (chunks.take (count + 1)).flatten = (chunks.take count).flatten ++ chunk)
  | ended (missing : ¬ (chunks.take count).flatten.length % 2 ^ 64 = declared lengths % 2 ^ 64)
      (all : chunks.take count = chunks) (failure : ReductError) (read : source.readChunk = .error failure)

theorem Feeding.readCases {lengths : List UInt64} {chunks : List Bytes} {source : Source} {count : Nat}
    (feeding : Feeding lengths chunks source count) : ReadCases lengths chunks source count := by
  by_cases zero : source.totalContentLen = 0
  · exact .dry (feeding.total_zero_iff.mp zero) (by rw [Source.readChunk, if_pos zero])
  · cases stream : source.chunks with
    | nil =>
      have beyond : chunks.length ≤ count := List.drop_eq_nil_iff.mp (feeding.stream.symm.trans stream)
      exact .ended (fun dry => zero (feeding.total_zero_iff.mpr dry)) (List.take_of_length_le beyond)
        source.ending.failure (by rw [Source.readChunk, if_neg zero, stream])
    | cons chunk rest =>
      have dropped : chunks.drop count = chunk :: rest := feeding.stream.symm.trans stream
      have at_count : chunks[count]? = some chunk := by
        rw [← Nat.add_zero count, ← List.getElem?_drop, dropped]
        rfl
      have longer : (chunks.take (count + 1)).flatten = (chunks.take count).flatten ++ chunk := by
        rw [List.take_add_one, at_count]
        simp
      refine .data chunk _ (by rw [Source.readChunk, if_neg zero, stream]) (by simp [stream]) ⟨?_, ?_⟩ longer
      · rw [← List.drop_drop, dropped]
        rfl
      · rw [longer, List.length_append, ← feeding.total, BitVec.ofNat_add]
        simp only [Int64.toBitVec_sub, Int64.toBitVec_ofNat']
        ring

def Stored (lengths : List UInt64) (consumed : Bytes) (state : State) : Prop :=
  match state.stage with
  | .recv => ∃ past, past ++ state.waiting = lengths ∧ Filled past state.delivered ∧
      contents state.delivered ++ state.chunk = consumed
  | .writing contentLength written taken => ∃ past length, past ++ length :: state.waiting = lengths ∧
      Filled past state.delivered ∧ contentLength = length.toNat ∧ written = taken.flatten.length ∧
      written ≤ contentLength ∧ contents state.delivered ++ (taken.flatten ++ state.chunk) = consumed
  | .returned (.ok ()) => Filled lengths state.delivered ∧ contents state.delivered ++ state.chunk = consumed
  | .returned (.error _) => True

def State.remaining (state : State) : Nat :=
  match state.stage with
  | .returned _ => 0
  | .recv => 2 * state.waiting.length + state.source.chunks.length + 1
  | .writing _ _ _ => 2 * state.waiting.length + state.source.chunks.length + 2

def Reply.accepting : Reply := { chunk := .ok (), eofInTime := true, notification := .ok () }

def Reply.Accepts (reply : Reply) : Prop := reply.chunk = .ok () ∧ reply.notification = .ok ()

structure Hungry (lengths : List UInt64) (consumed : Bytes) (state : State) (past : List UInt64) (length : UInt64)
    (taken : List Bytes) : Prop where
  order : past ++ length :: state.waiting = lengths
  filled : Filled past state.delivered
  within : taken.flatten.length ≤ length.toNat
  all : contents state.delivered ++ taken.flatten = consumed

inductive StepCases (lengths : List UInt64) (consumed : Bytes) (reply : Reply) (state : State) : State → Prop where
  | finishes (filled : Filled lengths state.delivered) (all : contents state.delivered ++ state.chunk = consumed) :
      StepCases lengths consumed reply state { state with stage := .returned (.ok ()) }
  | fails (rejected : ¬ reply.Accepts) (failure : ReductError) :
      StepCases lengths consumed reply state (state.fail failure)
  | moves (next : State) (source : next.source = state.source) (stored : Stored lengths consumed next)
      (running : ¬ next.stage.Returned) (fewer : next.remaining < state.remaining) :
      StepCases lengths consumed reply state next
  | refills (base : State) (source : base.source = state.source) {past : List UInt64} {length : UInt64}
      {taken : List Bytes} (hungry : Hungry lengths consumed base past length taken)
      (bound : 2 * base.waiting.length + state.source.chunks.length + 2 ≤ state.remaining)
      (short : taken.flatten.length < length.toNat ∨
        2 * base.waiting.length + state.source.chunks.length + 2 < state.remaining) :
      StepCases lengths consumed reply state (base.refill length.toNat taken.flatten.length taken)

theorem step_cases {lengths : List UInt64} {consumed : Bytes} {state : State} (stored : Stored lengths consumed state)
    (running : ¬ state.stage.Returned) (reply : Reply) :
    StepCases lengths consumed reply state (step reply state) := by
  obtain ⟨source, chunk, waiting, delivered, stage⟩ := state
  cases stage with
  | returned result => exact absurd ⟨result, rfl⟩ running
  | recv =>
    obtain ⟨past, order, filled, all⟩ := stored
    dsimp only at order filled all
    cases waiting with
    | nil =>
      rw [List.append_nil] at order
      subst order
      exact .finishes filled all
    | cons length waiting =>
      by_cases empty : chunk = []
      · have hungry : Hungry lengths consumed { source, chunk, waiting, delivered, stage := .recv } past length [] :=
          ⟨order, filled, Nat.zero_le _, by simpa [empty] using all⟩
        simp only [step, if_pos empty]
        refine @StepCases.refills lengths consumed reply
          { source, chunk, waiting := length :: waiting, delivered, stage := .recv }
          { source, chunk, waiting, delivered, stage := .recv } rfl _ _ _ hungry ?_ (.inr ?_) <;>
          simp only [State.remaining, List.length_cons] <;> omega
      · simp only [step, if_neg empty]
        refine .moves _ rfl ⟨past, length, order, filled, rfl, rfl, Nat.zero_le _, by simpa using all⟩
          (fun returned => nomatch returned) ?_
        simp only [State.remaining, List.length_cons]
        omega
  | writing contentLength written taken =>
    obtain ⟨past, length, order, filled, sized, counted, within, all⟩ := stored
    dsimp only at order filled all
    subst sized counted
    cases taking : reply.chunk with
    | error failure =>
      simp only [step, taking]
      refine .fails (fun accepts => ?_) failure
      rw [accepts.1] at taking
      cases taking
    | ok done =>
      by_cases short : chunk.length < length.toNat - taken.flatten.length
      · have longer : (taken ++ [chunk]).flatten.length = taken.flatten.length + chunk.length := by simp
        have hungry : Hungry lengths consumed
            { source, chunk, waiting, delivered, stage := .writing length.toNat taken.flatten.length taken }
            past length (taken ++ [chunk]) := ⟨order, filled, by omega, by simpa using all⟩
        simp only [step, writeChunk, if_pos short, taking]
        rw [← longer]
        exact .refills _ rfl hungry le_rfl (.inl (by omega))
      · cases notified : reply.notification with
        | error failure =>
          simp only [step, writeChunk, if_neg short, taking, notified]
          refine .fails (fun accepts => ?_) failure
          rw [accepts.2] at notified
          cases notified
        | ok done =>
          simp only [step, writeChunk, if_neg short, taking, notified]
          refine .moves _ rfl ⟨past ++ [length], by simpa using order, filled.append ?_, ?_⟩
            (fun returned => nomatch returned) (Nat.lt_succ_self _)
          · simp only [Delivery.content, List.flatten_append, List.flatten_cons, List.flatten_nil,
              List.append_nil, List.length_append, List.length_take]
            omega
          · rw [← all]
            simp [contents, Delivery.content]

section Whole

variable {lengths : List UInt64} {chunks : List Bytes}

theorem Hungry.stored {consumed : Bytes} {state : State} {past : List UInt64} {length : UInt64} {taken : List Bytes}
    (hungry : Hungry lengths consumed state past length taken) (source : Source) (chunk : Bytes) :
    Stored lengths (consumed ++ chunk)
      { state with source, chunk, stage := .writing length.toNat taken.flatten.length taken } :=
  ⟨past, length, hungry.order, hungry.filled, rfl, rfl, hungry.within, by rw [← hungry.all, List.append_assoc]⟩

theorem Hungry.runsDry {count : Nat} {state : State} {past : List UInt64} {length : UInt64} {taken : List Bytes}
    (hungry : Hungry lengths (chunks.take count).flatten state past length taken)
    (short : taken.flatten.length < length.toNat)
    (zero : (chunks.take count).flatten.length % 2 ^ 64 = declared lengths % 2 ^ 64) : RunsDry lengths chunks count := by
  refine ⟨?_, zero⟩
  rw [← hungry.all, List.length_append, hungry.filled.length_contents, ← hungry.order, declared_append, declared_cons]
  omega

structure Progress (lengths : List UInt64) (chunks : List Bytes) (state : State) (count : Nat) : Prop where
  feeding : Feeding lengths chunks state.source count
  stored : Stored lengths (chunks.take count).flatten state

theorem progress_step {state : State} {count : Nat} (progress : Progress lengths chunks state count) (reply : Reply) :
    ∃ later, Progress lengths chunks (step reply state) later := by
  obtain ⟨feeding, stored⟩ := progress
  by_cases returned : state.stage.Returned
  · obtain ⟨result, returned⟩ := returned
    have same : step reply state = state := by simp only [step, returned]
    rw [same]
    exact ⟨count, feeding, stored⟩
  · have turn := step_cases stored returned reply
    generalize step reply state = after at turn ⊢
    cases turn with
    | finishes filled all => exact ⟨count, feeding, filled, all⟩
    | fails rejected failure => exact ⟨count, feeding, trivial⟩
    | moves next source stored running fewer => exact ⟨count, source ▸ feeding, stored⟩
    | refills base source hungry bound short =>
      rw [← source] at feeding
      rcases feeding.readCases with ⟨-, read⟩ | ⟨chunk, next, read, -, fed, longer⟩ | ⟨-, -, failure, read⟩
      · refine ⟨count, ?_, ?_⟩ <;> rw [State.refill, read]
        · exact feeding
        · simpa using hungry.stored base.source []
      · refine ⟨count + 1, ?_, ?_⟩ <;> rw [State.refill, read]
        · exact fed
        · rw [longer]
          exact hungry.stored next chunk
      · refine ⟨count, ?_, ?_⟩ <;> rw [State.refill, read]
        · exact feeding
        · exact trivial

theorem toNat_sum (lengths : List UInt64) : lengths.sum.toNat = declared lengths % 2 ^ 64 := by
  induction lengths with
  | nil => rfl
  | cons length lengths ih => rw [List.sum_cons, UInt64.toNat_add, ih, declared_cons, Nat.add_mod_mod]

theorem progress_start (ending : StreamEnd) : Progress lengths chunks (start lengths lengths.sum chunks ending) 0 := by
  refine ⟨⟨rfl, ?_⟩, [], rfl, rfl, rfl⟩
  have sum : lengths.sum.toBitVec = BitVec.ofNat 64 (declared lengths) := by
    rw [← BitVec.toNat_inj, BitVec.toNat_ofNat]
    exact toNat_sum lengths
  simpa [start] using sum

theorem progress_run (lengths : List UInt64) (chunks : List Bytes) (ending : StreamEnd) (replies : Nat → Reply) (turn : Nat) : ∃ count,
    Progress lengths chunks (receiveBodyAndWriteRecords lengths lengths.sum chunks ending replies turn) count := by
  induction turn with
  | zero => exact ⟨0, progress_start ending⟩
  | succ turn ih =>
    obtain ⟨count, progress⟩ := ih
    exact progress_step progress (replies turn)

theorem remaining_step {state : State} {count : Nat} (progress : Progress lengths chunks state count)
    (full : ¬ RunsDry lengths chunks count) (running : ¬ state.stage.Returned) (reply : Reply) :
    (step reply state).remaining < state.remaining := by
  obtain ⟨feeding, stored⟩ := progress
  have positive : 0 < state.remaining := by
    cases stage : state.stage with
    | returned result => exact absurd ⟨result, stage⟩ running
    | recv => simp [State.remaining, stage]
    | writing contentLength written taken => simp [State.remaining, stage]
  have turn := step_cases stored running reply
  generalize step reply state = after at turn ⊢
  cases turn with
  | finishes filled all => exact positive
  | fails rejected failure => exact positive
  | moves next source stored running fewer => exact fewer
  | refills base source hungry bound short =>
    rw [← source] at feeding
    rcases feeding.readCases with ⟨zero, read⟩ | ⟨chunk, next, read, less, -, -⟩ | ⟨-, -, failure, read⟩ <;>
      rw [State.refill, read]
    · -- an empty chunk for a record that misses bytes would be the endless loop
      rcases short with short | fewer
      · exact absurd (hungry.runsDry short zero) full
      · simpa only [State.remaining, source] using fewer
    · rw [source] at less
      simp only [State.remaining] at bound ⊢
      omega
    · exact positive

theorem returns_of_full (ending : StreamEnd) (replies : Nat → Reply) (full : ∀ count, ¬ RunsDry lengths chunks count) :
    ∃ turn, (receiveBodyAndWriteRecords lengths lengths.sum chunks ending replies turn).stage.Returned := by
  by_contra never
  have bounded : ∀ turn, (receiveBodyAndWriteRecords lengths lengths.sum chunks ending replies turn).remaining + turn ≤
      (start lengths lengths.sum chunks ending).remaining := by
    intro turn
    induction turn with
    | zero => exact le_rfl
    | succ turn ih =>
      obtain ⟨count, progress⟩ := progress_run lengths chunks ending replies turn
      have less := remaining_step progress (full count) (fun returned => never ⟨turn, returned⟩) (replies turn)
      rw [receiveBodyAndWriteRecords]
      omega
  have beyond := bounded ((start lengths lengths.sum chunks ending).remaining + 1)
  omega

theorem sliced_of_ok (ending : StreamEnd) (replies : Nat → Reply) (turn : Nat)
    (ok : (receiveBodyAndWriteRecords lengths lengths.sum chunks ending replies turn).stage = .returned (.ok ())) :
    Sliced lengths chunks.flatten
      (receiveBodyAndWriteRecords lengths lengths.sum chunks ending replies turn).delivered := by
  obtain ⟨count, -, stored⟩ := progress_run lengths chunks ending replies turn
  rw [Stored, ok] at stored
  obtain ⟨filled, all⟩ := stored
  have whole := congrArg (· ++ (chunks.drop count).flatten) all
  simp only [List.append_assoc, ← List.flatten_append, List.take_append_drop] at whole
  exact filled.sliced whole

theorem reads_until_dry {source : Source} {count first : Nat} (feeding : Feeding lengths chunks source count)
    (dry : RunsDry lengths chunks first) (before : count ≤ first) :
    ∃ chunk next later, source.readChunk = .ok (chunk, next) ∧ later ≤ first ∧ Feeding lengths chunks next later ∧
      (chunks.take later).flatten = (chunks.take count).flatten ++ chunk := by
  by_cases zero : source.totalContentLen = 0
  · exact ⟨[], source, count, by rw [Source.readChunk, if_pos zero], before, feeding, by simp⟩
  · have apart : count ≠ first := by
      intro same
      subst same
      exact zero (feeding.total_zero_iff.mpr dry.2)
    rcases feeding.readCases with ⟨dried, -⟩ | ⟨chunk, next, read, -, fed, longer⟩ | ⟨missing, all, -, -⟩
    · exact absurd (feeding.total_zero_iff.mpr dried) zero
    · exact ⟨chunk, next, count + 1, read, by omega, fed, longer⟩
    · -- the stream cannot be over before that point
      have long : chunks.length ≤ count := by
        have lengths := congrArg List.length all
        rw [List.length_take] at lengths
        omega
      have same : chunks.take first = chunks.take count := by
        rw [all, List.take_of_length_le (long.trans before)]
      rw [← same] at missing
      exact absurd dry.2 missing

structure Endless (lengths : List UInt64) (chunks : List Bytes) (first : Nat) (state : State) : Prop where
  progress : ∃ count ≤ first, Progress lengths chunks state count
  running : ¬ state.stage.Returned

theorem endless_step {state : State} {first : Nat} (dry : RunsDry lengths chunks first)
    (endless : Endless lengths chunks first state) {reply : Reply} (accepts : reply.Accepts) :
    Endless lengths chunks first (step reply state) := by
  obtain ⟨⟨count, before, feeding, stored⟩, running⟩ := endless
  have shorter : (chunks.take count).flatten.length ≤ (chunks.take first).flatten.length :=
    ((List.take_prefix_take_left before).flatten).length_le
  have turn := step_cases stored running reply
  generalize step reply state = after at turn ⊢
  cases turn with
  | finishes filled all =>
    -- all records would have their bytes
    have bytes := congrArg List.length all
    rw [List.length_append, filled.length_contents] at bytes
    exact absurd dry.1 (by omega)
  | fails rejected failure => exact absurd accepts rejected
  | moves next source stored running fewer => exact ⟨⟨count, before, source ▸ feeding, stored⟩, running⟩
  | refills base source hungry bound short =>
    rw [← source] at feeding
    obtain ⟨chunk, next, later, read, early, fed, longer⟩ := reads_until_dry feeding dry before
    rw [State.refill, read]
    refine ⟨⟨later, early, fed, ?_⟩, fun returned => nomatch returned⟩
    rw [longer]
    exact hungry.stored next chunk

theorem endless_run {first : Nat} (dry : RunsDry lengths chunks first) (ending : StreamEnd) (replies : Nat → Reply)
    (accepts : ∀ turn, (replies turn).Accepts) (turn : Nat) :
    Endless lengths chunks first
      (receiveBodyAndWriteRecords lengths lengths.sum chunks ending replies turn) := by
  induction turn with
  | zero => exact ⟨⟨0, Nat.zero_le first, progress_start ending⟩, fun returned => nomatch returned⟩
  | succ turn ih => exact endless_step dry ih (accepts turn)

theorem not_runsDry (small : declared lengths < 2 ^ 64) (chunks : List Bytes) (count : Nat) :
    ¬ RunsDry lengths chunks count := by
  rintro ⟨less, same⟩
  rw [Nat.mod_eq_of_lt small, Nat.mod_eq_of_lt (less.trans small)] at same
  omega

/-- The loop ends and gives every writer its part of the body, if and only if the running total, which wraps, is not
    zero while bytes are still to come. -/
theorem receives_slices_iff (header : LengthHeader) (lengths : List UInt64) (total : UInt64) (chunks : List Bytes)
    (accepted : checkAndGetContentLength header lengths = .ok total ∨
      checkAndGetContentLengthV1 header lengths = .ok total) :
    (∀ ending replies, Correct lengths total chunks ending replies) ↔ ∀ count, ¬ RunsDry lengths chunks count := by
  have sum := accepted_sum accepted
  subst sum
  constructor
  · intro correct first dry
    obtain ⟨turn, returned⟩ := (correct .closed fun _ => .accepting).1
    exact (endless_run dry .closed _ (fun _ => ⟨rfl, rfl⟩) turn).running returned
  · intro full ending replies
    exact ⟨returns_of_full ending replies full, sliced_of_ok ending replies⟩

theorem receives_slices_three :
    checkAndGetContentLength (some (.ok 3)) [2, 0, 1] = .ok 3 ∧
      ∀ ending replies, Correct [2, 0, 1] 3 [[1], [], [2, 3]] ending replies := by
  have accepted : checkAndGetContentLength (some (.ok 3)) [2, 0, 1] = .ok 3 := by decide
  exact ⟨accepted, (receives_slices_iff (some (.ok 3)) [2, 0, 1] 3 [[1], [], [2, 3]] (.inl accepted)).mpr
    (not_runsDry (by decide) _)⟩

theorem receives_endless :
    checkAndGetContentLength (some (.ok 0)) [0x8000000000000000, 0x8000000000000000] = .ok 0 ∧
      ∀ turn, ¬ (receiveBodyAndWriteRecords [0x8000000000000000, 0x8000000000000000] 0 [] .closed (fun _ => .accepting) turn).stage.Returned := by
  refine ⟨by decide, fun turn => ?_⟩
  have dry : RunsDry [0x8000000000000000, 0x8000000000000000] [] 0 := by
    unfold RunsDry
    decide
  have endless := endless_run dry .closed (fun _ => .accepting) (fun _ => ⟨rfl, rfl⟩) turn
  have zero : ([0x8000000000000000, 0x8000000000000000] : List UInt64).sum = 0 := by decide
  rw [zero] at endless
  exact endless.running

end Whole

end ReductStore.BatchBody
