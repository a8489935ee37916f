import ReductStore.Shared.Machine
import ReductStore.Api.RangeResponse

set_option autoImplicit false

namespace ReductStore.RecordBody

inductive BodyStream where
  | record
  | ranges (specs : List RangeSpec) (queue : List ByteRange)

structure Body where
  stream : BodyStream
  sent : List (List UInt8)
  ending : Option BodyEnd

structure SharedReader where
  reader : OpenReader
  bodies : List Body

inductive ReaderEvent where
  | request (range : Option (List RangeSpec)) (admitted : Bool)
  | poll (index : Nat) (busy : Bool) (limit : Nat)
  | drop (index : Nat)

namespace Body

def after (body : Body) (stream : BodyStream) : Polled → Body
  | .pending => { body with stream }
  | .data bytes => { body with stream, sent := body.sent ++ [bytes] }
  | .ended => { body with stream, ending := some .complete }
  | .failed failure => { body with stream, ending := some (.failed failure) }
  | .overflow => { body with stream, ending := some .overflow }

def pollBusy (body : Body) : Body :=
  match body.stream with
  | .record => body.after .record .pending
  | .ranges specs [] => body.after (.ranges specs []) .ended
  -- the range was taken from the queue before the lock is tried
  | .ranges specs (_ :: rest) => body.after (.ranges specs rest) .pending

def poll (body : Body) (reader : OpenReader) (path : String) (file : Option File) (limit : Nat) : Body × OpenReader :=
  match body.stream with
  | .record =>
    let (polled, reader) := pollRecord reader path file limit
    (body.after .record polled, reader)
  | .ranges specs queue =>
    let (polled, queue, reader) := pollRanges reader path file limit queue
    (body.after (.ranges specs queue) polled, reader)

def expected (record : File) (body : Body) : List UInt8 :=
  match body.stream with
  | .record => record
  | .ranges specs _ => requested record specs

def streaming (body : Body) : Bool :=
  match body.stream with
  | .record => body.ending.isNone
  | .ranges _ _ => false

end Body

namespace SharedReader

def prepareBody (contentLength : Nat) : Option (List RangeSpec) → Body
  | none => { stream := .record, sent := [], ending := none }
  | some specs =>
    match prepareResponse contentLength specs with
    | .rangeNotSatisfiable _ => { stream := .ranges specs [], sent := [], ending := some .complete }
    | .overflow => { stream := .ranges specs [], sent := [], ending := some .overflow }
    | .partialContent _ _ ranges => { stream := .ranges specs ranges, sent := [], ending := none }

def apply (path : String) (file : Option File) (state : SharedReader) : ReaderEvent → SharedReader
  | .request range admitted =>
    match state.reader.seek 0 with
    | .error _ => state
    | .ok reader =>
      { reader
        bodies := if admitted then state.bodies ++ [prepareBody reader.reader.contentSize range] else state.bodies }
  | .poll index busy limit =>
    match state.bodies[index]? with
    | none => state
    | some body =>
      if body.ending.isSome then state
      else if busy then { state with bodies := state.bodies.set index body.pollBusy }
      else
        let (body, reader) := body.poll state.reader path file limit
        { reader, bodies := state.bodies.set index body }
  | .drop index =>
    match state.bodies[index]? with
    | none => state
    | some body =>
      if body.ending.isSome then state
      else { state with bodies := state.bodies.set index { body with ending := some .dropped } }

def frontSize (contentLength : Nat) : List ByteRange → Nat
  | [] => 0
  | range :: _ =>
    match rangeSpan contentLength range with
    | .bytes start stop => min (stop - start) maxIoBufferSize
    | _ => 0

def Body.PolledSafely (contentLength : Nat) (busy : Bool) (limit : Nat) (body : Body) : Prop :=
  match body.stream with
  | .record => True
  | .ranges _ queue => if busy then queue = [] else frontSize contentLength queue ≤ limit + 1

/-- Nobody else moves the cursor while a whole record is sent, no poll of ranges waits or reads less than it asks for, and
    the requested ranges end inside the record. -/
def Undisturbed (state : SharedReader) : ReaderEvent → Prop
  | .request range _ =>
    (∀ body ∈ state.bodies, body.streaming = false) ∧
      ∀ specs ∈ range, (∀ spec ∈ specs, spec.EndsInside state.reader.reader.contentSize) ∧
        wantedLength state.reader.reader.contentSize specs < 2 ^ 64
  | .poll index busy limit =>
    ∀ body ∈ state.bodies[index]?, body.ending = none →
      Body.PolledSafely state.reader.reader.contentSize busy limit body ∧
        (busy = false → ∀ other (inside : other < state.bodies.length), other ≠ index →
          state.bodies[other].streaming = false)
  | .drop _ => True

section Sound

variable {path : String} {content : File} {reader : RecordReader}

def Body.Holds (record : File) (position : Nat) (body : Body) : Prop :=
  match body.ending with
  | none =>
    match body.stream with
    | .record => position ≤ record.length ∧ body.sent.flatten = record.take position
    | .ranges specs queue => ∃ parts, Queued record.length queue parts ∧
        (∀ part ∈ parts, part.1 + part.2 ≤ record.length) ∧
        body.sent.flatten ++ (parts.map fun part => File.range record part.1 (part.1 + part.2)).flatten =
          requested record specs
  | some .complete => body.sent.flatten = body.expected record
  | some _ => True

structure Sound (reader : RecordReader) (content : File) (state : SharedReader) : Prop where
  same : state.reader.reader = reader
  bodies : ∀ body ∈ state.bodies, Body.Holds (recordContent reader content) state.reader.position body

theorem Body.Holds.moved {record : File} {position : Nat} {body : Body} (holds : Body.Holds record position body)
    (quiet : body.streaming = false) (later : Nat) : Body.Holds record later body := by
  obtain ⟨stream, sent, ending⟩ := body
  cases ending with
  | some ending => cases ending <;> exact holds
  | none =>
    cases stream with
    | record => cases quiet
    | ranges specs queue => exact holds

theorem holds_prepareBody (readable : Readable reader content) (range : Option (List RangeSpec))
    (safe : ∀ specs ∈ range, (∀ spec ∈ specs, spec.EndsInside reader.contentSize) ∧
      wantedLength reader.contentSize specs < 2 ^ 64) :
    Body.Holds (recordContent reader content) 0 (prepareBody reader.contentSize range) := by
  have recordLength : (recordContent reader content).length = reader.contentSize :=
    length_recordContent { reader, position := 0 } readable
  cases range with
  | none => exact ⟨Nat.zero_le _, rfl⟩
  | some specs =>
    obtain ⟨inside, total⟩ := safe specs rfl
    obtain ⟨notMore, lengthIff⟩ := wantedLength_le readable.small specs
    obtain ⟨contentRange, prepared⟩ := prepareResponse_eq readable.small specs
    have expectedLength : (requested (recordContent reader content) specs).length =
      wantedLength reader.contentSize specs := by rw [length_requested, recordLength]
    simp only [prepareBody, prepared]
    by_cases nothing : specs.filterMap (RangeSpec.kept reader.contentSize) = []
    · have noHeader := headerLength_of_nothing nothing
      rw [if_pos nothing]
      change [] = requested (recordContent reader content) specs
      exact (List.length_eq_zero_iff.mp (by omega)).symm
    · rw [if_neg nothing, if_pos (by rw [lengthIff.mpr inside]; exact total)]
      refine ⟨parts reader.contentSize specs, ?_, ?_, ?_⟩
      · rw [recordLength]
        exact queued_kept readable.small inside
      · rw [recordLength]
        exact fun part member => part_within member
      · have expectedParts := requested_parts (recordContent reader content) specs
        rw [recordLength] at expectedParts
        exact expectedParts.symm

theorem forall_set {bodies : List Body} {index : Nat} {replaced : Body} {holds : Body → Prop} (here : holds replaced)
    (others : ∀ other (inside : other < bodies.length), other ≠ index → holds bodies[other]) :
    ∀ body ∈ bodies.set index replaced, holds body := by
  intro body member
  obtain ⟨other, inside, rfl⟩ := List.mem_iff_getElem.mp member
  rw [List.length_set] at inside
  by_cases same : index = other
  · subst same
    rwa [List.getElem_set_self]
  · rw [List.getElem_set_of_ne same]
    exact others other inside (Ne.symm same)

theorem pollRecord_more (path : String) {state : OpenReader} (readable : Readable state.reader content)
    (more : state.position < state.reader.contentSize) (limit : Nat) :
    ∃ bytes, pollRecord state path (some content) limit =
        (.data bytes, { state with position := state.position + bytes.length }) ∧
      state.position + bytes.length ≤ state.reader.contentSize ∧
      bytes = File.range (recordContent state.reader content) state.position (state.position + bytes.length) := by
  have positive := maxIoBufferSize_pos
  obtain ⟨file, held⟩ := Option.isSome_iff_exists.mp (readable.held (by omega))
  obtain ⟨bytes, same⟩ : ∃ bytes, bytes = partBytes state.reader content
    (state.position, min (state.reader.contentSize - state.position) maxIoBufferSize) limit := ⟨_, rfl⟩
  have sized := length_partBytes readable
    (state.position, min (state.reader.contentSize - state.position) maxIoBufferSize)
    (by dsimp only; omega) limit
  rw [← same] at sized
  dsimp only at sized
  have read : state.readChunk path (some content) limit =
      (some (.ok bytes), { state with position := state.position + bytes.length }) := by
    have nonempty : bytes.length ≠ 0 := by omega
    simp only [OpenReader.readChunk, held]
    rw [same] at nonempty ⊢
    rw [if_neg (by omega)]
    exact if_neg nonempty
  obtain ⟨_, sameFile, within, exactly⟩ := OpenReader.readChunk_ok (congrArg Prod.fst read)
  cases sameFile
  refine ⟨bytes, by simp only [pollRecord, read], within, ?_⟩
  have inner : File.range (recordContent state.reader content) state.position (state.position + bytes.length) =
      File.range content (state.reader.offset + state.position)
        (state.reader.offset + (state.position + bytes.length)) :=
    File.range_range content _ _ _ _ (by omega)
  rw [inner, ← Nat.add_assoc]
  exact exactly

theorem holds_pollRecord (readable : Readable reader content) {state : OpenReader} (same : state.reader = reader)
    {body : Body} (stream : body.stream = .record) (running : body.ending = none)
    (holds : Body.Holds (recordContent reader content) state.position body) (limit : Nat) :
    (body.poll state path (some content) limit).2.reader = reader ∧
      Body.Holds (recordContent reader content) (body.poll state path (some content) limit).2.position
        (body.poll state path (some content) limit).1 := by
  subst same
  obtain ⟨_, sent, _⟩ := body
  cases stream
  cases running
  obtain ⟨position, front⟩ := holds
  dsimp only at front
  have recordLength := length_recordContent state readable
  by_cases more : state.position < state.reader.contentSize
  · obtain ⟨bytes, polled, within, exactly⟩ := pollRecord_more path readable more limit
    simp only [Body.poll, polled]
    refine ⟨trivial, by rw [recordLength]; exact within, ?_⟩
    change (sent ++ [bytes]).flatten = (recordContent state.reader content).take (state.position + bytes.length)
    rw [List.flatten_append, front, List.take_add]
    congr 1
    rw [List.flatten_singleton]
    nth_rewrite 1 [exactly]
    rw [File.range, List.drop_take, Nat.add_sub_cancel_left]
  · have polled : pollRecord state path (some content) limit = (.ended, state) := by
      simp only [pollRecord, OpenReader.readChunk]
      rw [if_pos (by omega)]
    simp only [Body.poll, polled]
    refine ⟨trivial, ?_⟩
    change sent.flatten = recordContent state.reader content
    rw [front, List.take_of_length_le (by omega)]

theorem frontSize_part {contentLength : Nat} {queue : List ByteRange} {part : Nat × Nat} {rest : List (Nat × Nat)}
    (queued : Queued contentLength queue (part :: rest)) : frontSize contentLength queue = part.2 := by
  obtain ⟨spans, all, same⟩ := queued
  cases all with
  | nil => cases same
  | cons inside others =>
    rw [List.flatMap_cons, cut_cons inside.nonempty maxIoBufferSize_pos, List.cons_append, List.cons.injEq] at same
    rw [frontSize, inside.spans, same.1]

theorem holds_pollRanges (readable : Readable reader content) {state : OpenReader} (same : state.reader = reader)
    {body : Body} {specs : List RangeSpec} {queue : List ByteRange} (stream : body.stream = .ranges specs queue)
    (running : body.ending = none) (holds : Body.Holds (recordContent reader content) state.position body) {limit : Nat}
    (full : frontSize reader.contentSize queue ≤ limit + 1) :
    (body.poll state path (some content) limit).2.reader = reader ∧
      Body.Holds (recordContent reader content) (body.poll state path (some content) limit).2.position
        (body.poll state path (some content) limit).1 := by
  subst same
  obtain ⟨_, sent, _⟩ := body
  cases stream
  cases running
  obtain ⟨parts, queued, within, all⟩ := holds
  have recordLength := length_recordContent state readable
  rw [recordLength] at queued within
  cases parts with
  | nil =>
    obtain rfl := queued_nil _ queued
    simp only [Body.poll, pollRanges]
    refine ⟨trivial, ?_⟩
    change sent.flatten = requested (recordContent state.reader content) specs
    simpa using all
  | cons part rest =>
    obtain ⟨left, next, polled, further, kept⟩ := pollRanges_part path readable queued limit
    rw [frontSize_part queued] at full
    simp only [Body.poll, polled]
    refine ⟨kept, rest, by rw [recordLength]; exact further, ?_, ?_⟩
    · rw [recordLength]
      exact fun other member => within other (List.mem_cons_of_mem part member)
    · rw [← all, partBytes_full (within part List.mem_cons_self) full]
      simp [Body.after]

theorem sound_apply (readable : Readable reader content) {state : SharedReader} (sound : Sound reader content state)
    (event : ReaderEvent) (undisturbed : state.Undisturbed event) :
    Sound reader content (state.apply path (some content) event) := by
  obtain ⟨same, bodies⟩ := sound
  cases event with
  | request range admitted =>
    obtain ⟨quiet, safe⟩ := undisturbed
    have sought := OpenReader.seek_inside state.reader (Nat.zero_le _) (by rw [same]; exact readable.small)
    simp only [apply, sought]
    refine ⟨same, fun body member => ?_⟩
    have old : ∀ body ∈ state.bodies, Body.Holds (recordContent reader content) 0 body :=
      fun body member => (bodies body member).moved (quiet body member) 0
    cases admitted with
    | false => exact old body member
    | true =>
      rcases List.mem_append.mp member with earlier | new
      · exact old body earlier
      · rw [List.mem_singleton] at new
        rw [new, same]
        rw [same] at safe
        exact holds_prepareBody readable range safe
  | poll index busy limit =>
    simp only [apply]
    cases found : state.bodies[index]? with
    | none => exact ⟨same, bodies⟩
    | some body =>
      have holds := bodies body (List.mem_of_getElem? found)
      dsimp only
      split_ifs with ended kept
      · exact ⟨same, bodies⟩
      · have running : body.ending = none := by simpa using ended
        obtain ⟨safely, -⟩ := undisturbed body found running
        refine ⟨same, forall_set ?_ fun other inside _ => bodies _ (List.getElem_mem inside)⟩
        obtain ⟨stream, sent, ending⟩ := body
        cases running
        cases stream with
        | record => exact holds
        | ranges specs queue =>
          have empty : queue = [] := by
            simp only [Body.PolledSafely, kept] at safely
            exact safely
          subst empty
          obtain ⟨parts, queued, within, all⟩ := holds
          obtain ⟨spans, spansAll, rfl⟩ := queued
          cases spansAll
          change sent.flatten = requested (recordContent reader content) specs
          simpa using all
      · have running : body.ending = none := by simpa using ended
        obtain ⟨safely, others⟩ := undisturbed body found running
        have free : busy = false := by simpa using kept
        have after : (body.poll state.reader path (some content) limit).2.reader = reader ∧
            Body.Holds (recordContent reader content) (body.poll state.reader path (some content) limit).2.position
              (body.poll state.reader path (some content) limit).1 := by
          cases stream : body.stream with
          | record => exact holds_pollRecord readable same stream running holds limit
          | ranges specs queue =>
            refine holds_pollRanges readable same stream running holds ?_
            simp only [Body.PolledSafely, stream, free, same] at safely
            exact safely
        refine ⟨after.1, forall_set after.2 fun other inside apart => ?_⟩
        exact (bodies _ (List.getElem_mem inside)).moved (others free other inside apart) _
  | drop index =>
    simp only [apply]
    cases found : state.bodies[index]? with
    | none => exact ⟨same, bodies⟩
    | some body =>
      dsimp only
      split_ifs
      · exact ⟨same, bodies⟩
      · exact ⟨same, forall_set trivial fun other inside _ => bodies _ (List.getElem_mem inside)⟩

def Body.KeepsRanges (record : File) (body : Body) : Prop :=
  ∀ specs queue, body.stream = .ranges specs queue → body.ending = none →
    ∃ parts, Queued record.length queue parts ∧
      body.sent.flatten ++ (parts.map fun part => File.range record part.1 (part.1 + part.2)).flatten =
        requested record specs

/-- Every body that is complete is what its request asked for, and no body has lost a range. -/
theorem bodies_exact (reader : RecordReader) (path : String) (content : File) (readable : Readable reader content)
    {state : SharedReader}
    (run : Runs (apply path (some content)) Undisturbed { reader := { reader, position := 0 }, bodies := [] } state)
    (body : Body) (member : body ∈ state.bodies) :
    (body.ending = some .complete → body.sent.flatten = body.expected (recordContent reader content)) ∧
      Body.KeepsRanges (recordContent reader content) body := by
  have sound : Sound reader content state :=
    run.invariant (Sound reader content) ⟨rfl, fun body member => absurd member List.not_mem_nil⟩
      fun _ event sound undisturbed => sound_apply readable sound event undisturbed
  have holds := sound.bodies body member
  obtain ⟨stream, sent, ending⟩ := body
  refine ⟨?_, ?_⟩
  · rintro rfl
    exact holds
  · rintro specs queue rfl rfl
    obtain ⟨parts, queued, -, all⟩ := holds
    exact ⟨parts, queued, all⟩

end Sound

section Example

instance (contentLength : Nat) (spec : RangeSpec) : Decidable (spec.EndsInside contentLength) :=
  match spec with
  | .between first last => inferInstanceAs (Decidable (first ≤ last → last.toNat < contentLength))
  | .startingAt _ | .suffix _ | .everything => isTrue trivial

instance (contentLength : Nat) (busy : Bool) (limit : Nat) (body : Body) :
    Decidable (Body.PolledSafely contentLength busy limit body) :=
  match body with
  | { stream := .record, .. } => isTrue trivial
  | { stream := .ranges _ queue, .. } =>
    inferInstanceAs (Decidable (if busy = true then queue = [] else frontSize contentLength queue ≤ limit + 1))

instance (state : SharedReader) (event : ReaderEvent) : Decidable (state.Undisturbed event) :=
  match event with
  | .request none _ => decidable_of_iff (∀ body ∈ state.bodies, body.streaming = false) (by simp [Undisturbed])
  | .request (some specs) _ =>
    decidable_of_iff ((∀ body ∈ state.bodies, body.streaming = false) ∧
      (∀ spec ∈ specs, spec.EndsInside state.reader.reader.contentSize) ∧
        wantedLength state.reader.reader.contentSize specs < 2 ^ 64) (by simp [Undisturbed])
  | .poll index busy limit =>
    match found : state.bodies[index]? with
    | none => isTrue (by simp [Undisturbed, found])
    | some body =>
      decidable_of_iff (body.ending = none →
        Body.PolledSafely state.reader.reader.contentSize busy limit body ∧
          (busy = false → ∀ other (inside : other < state.bodies.length), other ≠ index →
            state.bodies[other].streaming = false)) (by simp [Undisturbed, found])
  | .drop _ => isTrue trivial

def sharedStart : SharedReader := { reader := { middleReader with position := 0 }, bodies := [] }

def polite : List ReaderEvent :=
  [.request none true, .poll 0 true 0, .poll 0 false 0, .poll 0 false 511, .poll 0 false 511,
    .request (some [.between 0 0, .between 2 2]) true, .poll 1 false 511, .request (some [.suffix 2]) true,
    .poll 1 false 511, .poll 2 false 511, .poll 1 false 511]

theorem bodies_exact_polite :
    ∃ body ∈ (polite.foldl (apply "1.blk" (some threeRecords)) sharedStart).bodies,
      body.ending = some .complete ∧ body.sent.flatten = body.expected [1, 2, 3] := by
  have ended : (polite.foldl (apply "1.blk" (some threeRecords)) sharedStart).bodies[1]?.map Body.ending =
      some (some .complete) := by
    decide +kernel
  obtain ⟨body, found, complete⟩ := Option.map_eq_some_iff.mp ended
  have member := List.mem_of_getElem? found
  refine ⟨body, member, complete, ?_⟩
  exact (bodies_exact middleReader.reader "1.blk" threeRecords ⟨fun _ => rfl, by decide, by decide⟩
    (Runs.of_list polite sharedStart (by decide +kernel)) body member).1 complete

theorem bodies_disturbed :
    ([.request none true, .poll 0 false 0, .request none true, .poll 0 false 511, .poll 0 false 511].foldl
        (apply "1.blk" (some threeRecords)) sharedStart).bodies.map (fun body => (body.sent.flatten, body.ending)) =
      [([1, 1, 2, 3], some .complete), ([], none)] ∧
    ([.request (some [.between 0 0, .between 2 2]) true, .request none true, .poll 0 true 511, .poll 0 false 511,
          .poll 0 false 511].foldl
        (apply "1.blk" (some threeRecords)) sharedStart).bodies.map (fun body => (body.sent.flatten, body.ending)) =
      [([3], some .complete), ([], none)] := by
  decide +kernel

end Example

end SharedReader

end ReductStore.RecordBody
