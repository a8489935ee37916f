import ReductStore.Api.RecordBody

set_option autoImplicit false

namespace ReductStore.RecordBody

inductive BodyEnd where
  | complete
  | failed (failure : ReductError)
  | overflow
  | dropped
  deriving DecidableEq

structure RangeBody where
  reader : OpenReader
  ranges : List ByteRange
  sent : List (List UInt8)
  ending : Option BodyEnd

def RangeBody.poll (path : String) (file : Option File) (body : RangeBody) (limit : Nat) : RangeBody :=
  match body.ending with
  | some _ => body
  | none =>
    match pollRanges body.reader path file limit body.ranges with
    | (.pending, ranges, reader) => { body with ranges, reader }
    | (.data bytes, ranges, reader) => { body with ranges, reader, sent := body.sent ++ [bytes] }
    | (.ended, ranges, reader) => { body with ranges, reader, ending := some .complete }
    | (.failed failure, ranges, reader) => { body with ranges, reader, ending := some (.failed failure) }
    | (.overflow, ranges, reader) => { body with ranges, reader, ending := some .overflow }

def RangeBody.polls (path : String) (file : Option File) (limits : Nat → Nat) (body : RangeBody) (count : Nat) :
    RangeBody :=
  ((List.range count).map limits).foldl (RangeBody.poll path file) body

def RangeSpec.wanted (contentLength : Nat) : RangeSpec → Nat × Nat
  | .between first last => (first.toNat, min (last.toNat + 1) contentLength)
  | .startingAt first => (first.toNat, contentLength)
  | .suffix length => if length.toNat ≤ contentLength then (contentLength - length.toNat, contentLength) else (0, 0)
  | .everything => (0, 0)

def requested (record : File) (specs : List RangeSpec) : List UInt8 :=
  (specs.map fun spec => File.range record (spec.wanted record.length).1 (spec.wanted record.length).2).flatten

def recordContent (reader : RecordReader) (content : File) : File :=
  File.range content reader.offset (reader.offset + reader.contentSize)

def CorrectResponse (reader : OpenReader) (path : String) (content : File) (limits : Nat → Nat)
    (specs : List RangeSpec) : Prop :=
  let expected := requested (recordContent reader.reader content) specs
  match prepareResponse reader.reader.contentSize specs with
  | .rangeNotSatisfiable _ => expected = []
  | .overflow => False
  | .partialContent contentLength _ ranges =>
    contentLength = expected.length ∧
      ∃ count, (RangeBody.polls path (some content) limits { reader, ranges, sent := [], ending := none } count).ending =
          some .complete ∧
        (RangeBody.polls path (some content) limits { reader, ranges, sent := [], ending := none } count).sent.flatten =
          expected

def parts (contentLength : Nat) (specs : List RangeSpec) : List (Nat × Nat) :=
  specs.flatMap fun spec => cut maxIoBufferSize (spec.wanted contentLength).1 (spec.wanted contentLength).2

structure SafeRequest (contentLength : Nat) (limits : Nat → Nat) (specs : List RangeSpec) : Prop where
  inside : ∀ first last, .between first last ∈ specs → first ≤ last → last.toNat < contentLength
  total : (specs.map fun spec => (spec.wanted contentLength).2 - (spec.wanted contentLength).1).sum < 2 ^ 64
  full : ∀ (index : Nat) (part : Nat × Nat), (parts contentLength specs)[index]? = some part → part.2 ≤ limits index + 1

section Stream

structure Inside (contentLength : Nat) (range : ByteRange) (span : Nat × Nat) : Prop where
  spans : rangeSpan contentLength range = .bytes span.1 span.2
  nonempty : span.1 < span.2
  within : span.2 ≤ contentLength

def Queued (contentLength : Nat) (ranges : List ByteRange) (parts : List (Nat × Nat)) : Prop :=
  ∃ spans, List.Forall₂ (Inside contentLength) ranges spans ∧
    parts = spans.flatMap fun span => cut maxIoBufferSize span.1 span.2

theorem maxIoBufferSize_pos : 0 < maxIoBufferSize := by decide

theorem queued_requeue {contentLength start stop : Nat} {ranges : List ByteRange} {spans : List (Nat × Nat)}
    (others : List.Forall₂ (Inside contentLength) ranges spans) (within : stop ≤ contentLength)
    (small : contentLength < 2 ^ 63) :
    Queued contentLength (requeue start stop ranges)
      (cut maxIoBufferSize (start + maxIoBufferSize) stop ++
        spans.flatMap fun span => cut maxIoBufferSize span.1 span.2) := by
  by_cases more : maxIoBufferSize < stop - start
  · have first : (UInt64.ofNat (start + maxIoBufferSize)).toNat = start + maxIoBufferSize :=
      UInt64.toNat_ofNat_of_lt' (by simp only [UInt64.size]; omega)
    have last : (UInt64.ofNat (stop - 1)).toNat = stop - 1 :=
      UInt64.toNat_ofNat_of_lt' (by simp only [UInt64.size]; omega)
    have sum : checkedAdd (stop - 1) 1 = some stop := by
      rw [checkedAdd, if_pos (by omega), Nat.sub_add_cancel (by omega)]
    rw [requeue, if_pos more]
    refine ⟨(start + maxIoBufferSize, stop) :: spans, .cons ⟨?_, by dsimp only; omega, within⟩ others, rfl⟩
    simp only [rangeSpan, first, last, sum, Option.map_some, Option.getD_some]
  · rw [requeue, if_neg more, cut_empty (by omega)]
    exact ⟨spans, others, rfl⟩

variable {reader : OpenReader} {path : String} {content : File} {contentLength : Nat}

def partBytes (reader : RecordReader) (content : File) (part : Nat × Nat) (limit : Nat) : List UInt8 :=
  (File.range content (reader.offset + part.1) (reader.offset + part.1 + part.2)).take (limit + 1)

structure Readable (reader : RecordReader) (content : File) : Prop where
  held : reader.contentSize ≠ 0 → reader.file.isSome = true
  stored : reader.offset + reader.contentSize ≤ content.length
  small : reader.contentSize < 2 ^ 63

theorem length_partBytes (readable : Readable reader.reader content) (part : Nat × Nat)
    (within : part.1 + part.2 ≤ reader.reader.contentSize) (limit : Nat) :
    (partBytes reader.reader content part limit).length = min part.2 (limit + 1) := by
  have stored := readable.stored
  simp only [partBytes, File.range, List.length_take, List.length_drop]
  omega

theorem pollRanges_part (path : String) (readable : Readable reader.reader content) {ranges : List ByteRange} {part : Nat × Nat}
    {rest : List (Nat × Nat)} (queued : Queued reader.reader.contentSize ranges (part :: rest)) (limit : Nat) :
    ∃ left next, pollRanges reader path (some content) limit ranges =
        (.data (partBytes reader.reader content part limit), left, next) ∧
      Queued reader.reader.contentSize left rest ∧ next.reader = reader.reader := by
  obtain ⟨spans, all, same⟩ := queued
  cases all with
  | nil => cases same
  | @cons range span ranges spans inside others =>
    rw [List.flatMap_cons, cut_cons inside.nonempty maxIoBufferSize_pos, List.cons_append, List.cons.injEq] at same
    obtain ⟨rfl, rfl⟩ := same
    obtain ⟨spansTo, nonempty, within⟩ := inside
    have length : checkedSub span.2 span.1 = some (span.2 - span.1) := if_pos nonempty.le
    have sought := OpenReader.seek_inside reader (show span.1 ≤ _ by omega) readable.small
    obtain ⟨file, held⟩ := Option.isSome_iff_exists.mp (readable.held (by omega))
    have sized := length_partBytes readable (span.1, min (span.2 - span.1) maxIoBufferSize)
      (by dsimp only; omega) limit
    have some_bytes : partBytes reader.reader content (span.1, min (span.2 - span.1) maxIoBufferSize) limit ≠ [] := by
      intro nothing
      rw [nothing] at sized
      have := maxIoBufferSize_pos
      simp only [List.length_nil] at sized
      omega
    have read : OpenReader.read { reader with position := span.1 } path (some content)
        (min (span.2 - span.1) maxIoBufferSize) limit =
        (.ok (partBytes reader.reader content (span.1, min (span.2 - span.1) maxIoBufferSize) limit),
          { reader with
            position := span.1 +
              (partBytes reader.reader content (span.1, min (span.2 - span.1) maxIoBufferSize) limit).length }) := by
      simp only [OpenReader.read, held, partBytes]
    obtain ⟨byte, further, shape⟩ := List.exists_cons_of_ne_nil some_bytes
    rw [shape] at read
    refine ⟨requeue span.1 span.2 ranges, { reader with position := span.1 + (byte :: further).length }, ?_,
      queued_requeue others within readable.small, rfl⟩
    simp only [pollRanges, spansTo, length, sought, read, shape]

theorem polls_parts (path : String) (readable : Readable reader.reader content) {ranges : List ByteRange} {parts : List (Nat × Nat)}
    (queued : Queued reader.reader.contentSize ranges parts) (sent : List (List UInt8)) (limits : List Nat)
    (fitting : limits.length ≤ parts.length) :
    ∃ left next, limits.foldl (RangeBody.poll path (some content)) { reader, ranges, sent, ending := none } =
        { reader := next, ranges := left, sent := sent ++ List.zipWith (partBytes reader.reader content) parts limits
          ending := none } ∧
      Queued reader.reader.contentSize left (parts.drop limits.length) ∧ next.reader = reader.reader := by
  induction limits generalizing reader ranges parts sent with
  | nil => exact ⟨ranges, reader, by simp, by simpa using queued, rfl⟩
  | cons limit limits ih =>
    cases parts with
    | nil => simp at fitting
    | cons part parts =>
      obtain ⟨left, next, polled, rest, same⟩ := pollRanges_part path readable queued limit
      have step : RangeBody.poll path (some content) { reader, ranges, sent, ending := none } limit =
          { reader := next, ranges := left, sent := sent ++ [partBytes reader.reader content part limit]
            ending := none } := by
        simp only [RangeBody.poll, polled]
      rw [← same] at readable rest
      obtain ⟨final, last, run, queue, kept⟩ := ih readable rest (sent ++ [partBytes reader.reader content part limit])
        (Nat.le_of_succ_le_succ fitting)
      rw [same] at run queue kept
      refine ⟨final, last, ?_, queue, kept⟩
      rw [List.foldl_cons, step, run, List.zipWith_cons_cons]
      simp

theorem queued_nil (contentLength : Nat) {ranges : List ByteRange} (queued : Queued contentLength ranges []) : ranges = [] := by
  obtain ⟨spans, all, none⟩ := queued
  cases all with
  | nil => rfl
  | cons inside others =>
    rw [List.flatMap_cons] at none
    have nothing := (List.append_eq_nil_iff.mp none.symm).1
    exact absurd nothing (cut_ne_nil inside.nonempty maxIoBufferSize_pos)

theorem foldl_ended (limits : List Nat) (body : RangeBody) {ending : BodyEnd} (ended : body.ending = some ending) :
    limits.foldl (RangeBody.poll path (some content)) body = body := by
  induction limits with
  | nil => rfl
  | cons limit limits ih =>
    have step : RangeBody.poll path (some content) body limit = body := by
      unfold RangeBody.poll
      rw [ended]
    rw [List.foldl_cons, step, ih]

theorem polls_complete (path : String) (readable : Readable reader.reader content) {ranges : List ByteRange}
    {parts : List (Nat × Nat)} (queued : Queued reader.reader.contentSize ranges parts) (limits : Nat → Nat)
    (count : Nat) :
    let body := RangeBody.polls path (some content) limits { reader, ranges, sent := [], ending := none } count
    (count ≤ parts.length → body.ending = none) ∧
      (parts.length < count → body.ending = some .complete ∧
        body.sent = List.zipWith (partBytes reader.reader content) parts ((List.range parts.length).map limits)) := by
  refine ⟨fun early => ?_, fun late => ?_⟩
  · obtain ⟨left, next, run, -, -⟩ := polls_parts path readable queued [] ((List.range count).map limits)
      (by simpa using early)
    rw [RangeBody.polls, run]
  · obtain ⟨left, next, run, queue, kept⟩ := polls_parts path readable queued []
      ((List.range parts.length).map limits) (by simp)
    have none_left : left = [] := by
      refine queued_nil reader.reader.contentSize ?_
      simpa using queue
    subst none_left
    have split : List.range count = List.range parts.length ++ (List.range' parts.length (count - parts.length)) := by
      rw [← Nat.add_sub_cancel' late.le, List.range_add]
      simp [List.range'_eq_map_range]
    have further : List.range' parts.length (count - parts.length) =
        parts.length :: List.range' (parts.length + 1) (count - parts.length - 1) := by
      rw [← Nat.sub_add_cancel (Nat.sub_pos_of_lt late), List.range'_succ]
      simp
    have last : RangeBody.poll path (some content)
        { reader := next, ranges := [], sent := [] ++ List.zipWith (partBytes reader.reader content) parts
            ((List.range parts.length).map limits), ending := none } (limits parts.length) =
        { reader := next, ranges := [], sent := [] ++ List.zipWith (partBytes reader.reader content) parts
            ((List.range parts.length).map limits), ending := some .complete } := rfl
    rw [RangeBody.polls, split, further, List.map_append, List.map_cons, List.foldl_append, run, List.foldl_cons, last,
      foldl_ended _ _ rfl]
    exact ⟨rfl, rfl⟩

end Stream

section Lengths

variable {contentLength : Nat}

def RangeSpec.kept (contentLength : Nat) (spec : RangeSpec) : Option ByteRange :=
  (spec.bounds contentLength).filter fun range => (resolveContentRange contentLength range).isSome

def RangeSpec.resolved (contentLength : Nat) (spec : RangeSpec) : Option (Nat × Nat) :=
  (spec.kept contentLength).bind (resolveContentRange contentLength)

def RangeSpec.EndsInside (contentLength : Nat) : RangeSpec → Prop
  | .between first last => first ≤ last → last.toNat < contentLength
  | _ => True

inductive Answered (contentLength : Nat) (spec : RangeSpec) : Prop where
  | dropped (kept : spec.kept contentLength = none)
      (empty : (spec.wanted contentLength).2 ≤ (spec.wanted contentLength).1)
      (inside : spec.EndsInside contentLength)
  | answered (range : ByteRange) (last : Nat) (kept : spec.kept contentLength = some range)
      (resolves : resolveContentRange contentLength range = some ((spec.wanted contentLength).1, last))
      (forwards : (spec.wanted contentLength).1 ≤ last) (within : (spec.wanted contentLength).2 ≤ last + 1)
      (inside : spec.EndsInside contentLength ↔ (spec.wanted contentLength).2 = last + 1)
      (spans : spec.EndsInside contentLength → rangeSpan contentLength range =
        .bytes (spec.wanted contentLength).1 (spec.wanted contentLength).2)

theorem answered (small : contentLength < 2 ^ 63) (spec : RangeSpec) : Answered contentLength spec := by
  cases spec with
  | between first last =>
    by_cases forwards : first ≤ last
    · have order : first.toNat ≤ last.toNat := forwards
      refine .answered ⟨.included first, .included last⟩ last.toNat ?_ ?_ order ?_ ?_ ?_
      · simp [RangeSpec.kept, RangeSpec.bounds, resolveContentRange, forwards]
      · simp [resolveContentRange, forwards, RangeSpec.wanted]
      · exact min_le_left _ _
      · simp only [RangeSpec.EndsInside, RangeSpec.wanted]
        constructor
        · intro inside
          have := inside forwards
          omega
        · intro same _
          omega
      · intro inside
        have less := inside forwards
        have sum : checkedAdd last.toNat 1 = some (last.toNat + 1) := if_pos (by omega)
        simp only [rangeSpan, sum, RangeSpec.wanted, Option.map_some, Option.getD_some]
        rw [min_eq_left (by omega)]
    · have order : last.toNat < first.toNat := by
        simpa [UInt64.le_iff_toNat_le] using forwards
      refine .dropped ?_ ?_ (fun contrary => absurd contrary forwards)
      · simp [RangeSpec.kept, RangeSpec.bounds, resolveContentRange, forwards]
      · simp only [RangeSpec.wanted]
        omega
  | startingAt first =>
    by_cases inside : first.toNat < contentLength
    · refine .answered ⟨.included first, .unbounded⟩ (contentLength - 1) ?_ ?_ ?_ ?_ ?_ ?_
      · simp [RangeSpec.kept, RangeSpec.bounds, resolveContentRange, inside]
      · simp [resolveContentRange, inside, RangeSpec.wanted]
      · simp only [RangeSpec.wanted]
        omega
      · simp only [RangeSpec.wanted]
        omega
      · simp only [RangeSpec.EndsInside, RangeSpec.wanted, true_iff]
        omega
      · intro _
        rfl
    · refine .dropped ?_ (by simpa [RangeSpec.wanted] using inside) trivial
      simp [RangeSpec.kept, RangeSpec.bounds, resolveContentRange, inside]
  | suffix length =>
    by_cases fits : length.toNat ≤ contentLength
    · have notLonger : ¬ contentLength < length.toNat := by omega
      have start : (UInt64.ofNat (contentLength - length.toNat)).toNat = contentLength - length.toNat :=
        UInt64.toNat_ofNat_of_lt' (by simp only [UInt64.size]; omega)
      have wanted : (RangeSpec.suffix length).wanted contentLength = (contentLength - length.toNat, contentLength) := by
        simp [RangeSpec.wanted, fits]
      by_cases inside : contentLength - length.toNat < contentLength
      · refine .answered ⟨.included (UInt64.ofNat (contentLength - length.toNat)), .unbounded⟩ (contentLength - 1)
          ?_ ?_ ?_ ?_ ?_ ?_
        · simp [RangeSpec.kept, RangeSpec.bounds, resolveContentRange, notLonger, start, inside]
        · simp only [resolveContentRange, start, if_pos inside, wanted]
        · rw [wanted]
          dsimp only
          omega
        · rw [wanted]
          dsimp only
          omega
        · rw [wanted]
          simp only [RangeSpec.EndsInside, true_iff]
          omega
        · intro _
          simp only [rangeSpan, start, wanted]
      · refine .dropped ?_ (by rw [wanted]; dsimp only; omega) trivial
        simp only [RangeSpec.kept, RangeSpec.bounds, if_neg notLonger, Option.filter, resolveContentRange, start,
          if_neg inside, Option.isSome_none]
        rfl
    · have longer : contentLength < length.toNat := by omega
      refine .dropped ?_ ?_ trivial
      · simp [RangeSpec.kept, RangeSpec.bounds, longer]
      · simp [RangeSpec.wanted, fits]
  | everything => exact .dropped rfl le_rfl trivial

def headerLength (contentLength : Nat) (specs : List RangeSpec) : Nat :=
  ((specs.filterMap (RangeSpec.resolved contentLength)).map fun range => range.2 - range.1 + 1).sum

def wantedLength (contentLength : Nat) (specs : List RangeSpec) : Nat :=
  (specs.map fun spec => (spec.wanted contentLength).2 - (spec.wanted contentLength).1).sum

theorem wantedLength_le (small : contentLength < 2 ^ 63) (specs : List RangeSpec) :
    wantedLength contentLength specs ≤ headerLength contentLength specs ∧
      (headerLength contentLength specs = wantedLength contentLength specs ↔
        ∀ spec ∈ specs, spec.EndsInside contentLength) := by
  induction specs with
  | nil => exact ⟨le_rfl, by simp [headerLength, wantedLength]⟩
  | cons spec specs ih =>
    obtain ⟨below, same⟩ := ih
    rw [List.forall_mem_cons, ← same]
    cases answered small spec with
    | dropped kept empty inside =>
      have resolved : spec.resolved contentLength = none := by rw [RangeSpec.resolved, kept]; rfl
      have header : headerLength contentLength (spec :: specs) = headerLength contentLength specs := by
        rw [headerLength, List.filterMap_cons_none resolved]
        rfl
      have wanted : wantedLength contentLength (spec :: specs) = wantedLength contentLength specs := by
        simp only [wantedLength, List.map_cons, List.sum_cons]
        omega
      rw [header, wanted]
      exact ⟨below, by simp [inside]⟩
    | answered range last kept resolves forwards within inside spans =>
      have resolved : spec.resolved contentLength = some ((spec.wanted contentLength).1, last) := by
        rw [RangeSpec.resolved, kept]
        exact resolves
      have header : headerLength contentLength (spec :: specs) =
          (last - (spec.wanted contentLength).1 + 1) + headerLength contentLength specs := by
        rw [headerLength, List.filterMap_cons_some resolved]
        rfl
      have wanted : wantedLength contentLength (spec :: specs) =
          ((spec.wanted contentLength).2 - (spec.wanted contentLength).1) + wantedLength contentLength specs := rfl
      rw [header, wanted, inside]
      omega

theorem headerLength_of_nothing {specs : List RangeSpec}
    (nothing : specs.filterMap (RangeSpec.kept contentLength) = []) : headerLength contentLength specs = 0 := by
  have composed : (specs.filterMap (RangeSpec.kept contentLength)).filterMap (resolveContentRange contentLength) =
    specs.filterMap (RangeSpec.resolved contentLength) := List.filterMap_filterMap
  rw [nothing] at composed
  rw [headerLength, ← composed]
  rfl

theorem foldlM_addLength (ranges : List (Nat × Nat)) (forwards : ∀ range ∈ ranges, range.1 ≤ range.2) (sum : Nat)
    (start : sum < 2 ^ 64) :
    ranges.foldlM addLength sum =
      if sum + (ranges.map fun range => range.2 - range.1 + 1).sum < 2 ^ 64 then
        some (sum + (ranges.map fun range => range.2 - range.1 + 1).sum)
      else none := by
  induction ranges generalizing sum with
  | nil =>
    simp only [List.foldlM_nil, List.map_nil, List.sum_nil, Nat.add_zero, if_pos start]
    rfl
  | cons range ranges ih =>
    have order := forwards range List.mem_cons_self
    have step : addLength sum range =
        if sum + (range.2 - range.1 + 1) < 2 ^ 64 then some (sum + (range.2 - range.1 + 1)) else none := by
      simp only [addLength, checkedSub, if_pos order, checkedAdd, Option.bind_eq_bind, Option.bind_some]
      by_cases fits : range.2 - range.1 + 1 < 2 ^ 64
      · rw [if_pos fits]
        rfl
      · rw [if_neg fits, if_neg (by omega)]
        rfl
    rw [List.foldlM_cons, step, List.map_cons, List.sum_cons]
    by_cases fits : sum + (range.2 - range.1 + 1) < 2 ^ 64
    · rw [if_pos fits]
      simp only [Option.bind_eq_bind, Option.bind_some]
      rw [ih (fun other member => forwards other (List.mem_cons_of_mem _ member)) _ fits, Nat.add_assoc]
    · rw [if_neg fits, if_neg (by omega)]
      rfl

end Lengths

section Response

variable {reader : OpenReader} {path : String} {content : File} {contentLength : Nat}

theorem wanted_le (contentLength : Nat) (spec : RangeSpec) : (spec.wanted contentLength).2 ≤ contentLength := by
  cases spec with
  | between first last => exact min_le_right _ _
  | startingAt first => exact le_rfl
  | suffix length =>
    simp only [RangeSpec.wanted]
    split <;> simp
  | everything => exact Nat.zero_le _

theorem length_recordContent (reader : OpenReader) (readable : Readable reader.reader content) :
    (recordContent reader.reader content).length = reader.reader.contentSize := by
  have stored := readable.stored
  simp only [recordContent, File.range, List.length_drop, List.length_take]
  omega

theorem length_requested (record : File) (specs : List RangeSpec) :
    (requested record specs).length = wantedLength record.length specs := by
  rw [requested, wantedLength, List.length_flatten, List.map_map]
  congr 1
  refine List.map_congr_left fun spec _ => ?_
  have within := wanted_le record.length spec
  simp only [Function.comp_apply, File.range, List.length_drop, List.length_take]
  omega

theorem queued_kept (small : contentLength < 2 ^ 63) {specs : List RangeSpec}
    (inside : ∀ spec ∈ specs, spec.EndsInside contentLength) :
    Queued contentLength (specs.filterMap (RangeSpec.kept contentLength)) (parts contentLength specs) := by
  induction specs with
  | nil => exact ⟨[], .nil, rfl⟩
  | cons spec specs ih =>
    obtain ⟨here, others⟩ := List.forall_mem_cons.mp inside
    obtain ⟨spans, all, same⟩ := ih others
    cases answered small spec with
    | dropped kept empty _ =>
      refine ⟨spans, by rwa [List.filterMap_cons_none kept], ?_⟩
      rw [← same, parts, List.flatMap_cons, cut_empty empty]
      rfl
    | answered range last kept resolves forwards within insideIff spansTo =>
      have stop := insideIff.mp here
      rw [List.filterMap_cons_some kept]
      refine ⟨spec.wanted contentLength :: spans, .cons ⟨spansTo here, by omega, wanted_le _ _⟩ all, ?_⟩
      rw [List.flatMap_cons, ← same]
      rfl

theorem requested_parts (record : File) (specs : List RangeSpec) :
    requested record specs =
      ((parts record.length specs).map fun part => File.range record part.1 (part.1 + part.2)).flatten := by
  induction specs with
  | nil => rfl
  | cons spec specs ih =>
    have first := flatten_cut (spec.wanted record.length).1 (spec.wanted record.length).2
      record maxIoBufferSize_pos
    have split : parts record.length (spec :: specs) =
        cut maxIoBufferSize (spec.wanted record.length).1 (spec.wanted record.length).2 ++
          parts record.length specs := rfl
    rw [split, List.map_append, List.flatten_append, first, ← ih]
    rfl

theorem prepareResponse_eq (small : contentLength < 2 ^ 63) (specs : List RangeSpec) :
    ∃ contentRange, prepareResponse contentLength specs =
      if specs.filterMap (RangeSpec.kept contentLength) = [] then
        .rangeNotSatisfiable ("bytes */" ++ toString contentLength)
      else if headerLength contentLength specs < 2 ^ 64 then
        .partialContent (headerLength contentLength specs) contentRange
          (specs.filterMap (RangeSpec.kept contentLength))
      else .overflow := by
  have ranges : (satisfiableRanges contentLength specs).filter
      (fun range => (resolveContentRange contentLength range).isSome) =
        specs.filterMap (RangeSpec.kept contentLength) := List.filter_filterMap
  have resolved : (specs.filterMap (RangeSpec.kept contentLength)).filterMap (resolveContentRange contentLength) =
      specs.filterMap (RangeSpec.resolved contentLength) := List.filterMap_filterMap
  have forwards : ∀ range ∈ specs.filterMap (RangeSpec.resolved contentLength), range.1 ≤ range.2 := by
    intro range member
    obtain ⟨spec, -, resolves⟩ := List.mem_filterMap.mp member
    cases answered small spec with
    | dropped kept empty inside => simp [RangeSpec.resolved, kept] at resolves
    | answered range last kept resolvesTo forwards within inside spans =>
      rw [RangeSpec.resolved, kept, Option.bind_some, resolvesTo] at resolves
      cases resolves
      exact forwards
  have sum : (specs.filterMap (RangeSpec.resolved contentLength)).foldlM addLength 0 =
      if headerLength contentLength specs < 2 ^ 64 then some (headerLength contentLength specs) else none := by
    rw [foldlM_addLength _ forwards 0 (by omega), Nat.zero_add]
    rfl
  unfold prepareResponse
  rw [ranges]
  cases shape : specs.filterMap (RangeSpec.kept contentLength) with
  | nil => exact ⟨none, rfl⟩
  | cons front rest =>
    refine ⟨(resolveContentRange contentLength front).map fun range =>
        "bytes " ++ toString range.1 ++ "-" ++ toString range.2 ++ "/" ++ toString contentLength, ?_⟩
    have nonempty : specs.filterMap (RangeSpec.kept contentLength) ≠ [] := by
      rw [shape]
      exact List.cons_ne_nil front rest
    dsimp only
    rw [← shape, resolved, sum, if_neg nonempty]
    by_cases fits : headerLength contentLength specs < 2 ^ 64
    · rw [if_pos fits, if_pos fits]
    · rw [if_neg fits, if_neg fits]

theorem part_within {specs : List RangeSpec} {part : Nat × Nat} (member : part ∈ parts contentLength specs) :
    part.1 + part.2 ≤ contentLength := by
  obtain ⟨spec, -, inside⟩ := List.mem_flatMap.mp member
  exact (mem_cut inside).2.2.trans (wanted_le contentLength spec)

theorem full_of_length (readable : Readable reader.reader content) {parts : List (Nat × Nat)}
    (within : ∀ part ∈ parts, part.1 + part.2 ≤ reader.reader.contentSize) (limits : List Nat)
    (sized : limits.length = parts.length) :
    let sent := (List.zipWith (partBytes reader.reader content) parts limits).flatten
    sent.length ≤ (parts.map Prod.snd).sum ∧
      ((parts.map Prod.snd).sum ≤ sent.length → List.Forall₂ (fun part limit => part.2 ≤ limit + 1) parts limits) := by
  induction parts generalizing limits with
  | nil =>
    obtain rfl := List.length_eq_zero_iff.mp sized
    exact ⟨le_rfl, fun _ => .nil⟩
  | cons part parts ih =>
    cases limits with
    | nil => cases sized
    | cons limit limits =>
      obtain ⟨less, full⟩ :=
        ih (fun other member => within other (List.mem_cons_of_mem _ member)) limits (Nat.succ.inj sized)
      have here := length_partBytes readable part (within part List.mem_cons_self) limit
      simp only [List.zipWith_cons_cons, List.flatten_cons, List.length_append, List.map_cons, List.sum_cons, here]
      refine ⟨by omega, fun enough => .cons (by omega) (full (by omega))⟩

theorem partBytes_full {part : Nat × Nat} {limit : Nat} (within : part.1 + part.2 ≤ reader.reader.contentSize)
    (full : part.2 ≤ limit + 1) : partBytes reader.reader content part limit =
      File.range (recordContent reader.reader content) part.1 (part.1 + part.2) := by
  have same : File.range (recordContent reader.reader content) part.1 (part.1 + part.2) =
      File.range content (reader.reader.offset + part.1) (reader.reader.offset + (part.1 + part.2)) :=
    File.range_range content _ _ _ _ (by omega)
  rw [same, partBytes, List.take_of_length_le]
  · rw [Nat.add_assoc]
  · simp only [File.range, List.length_drop, List.length_take]
    omega

theorem flatten_partBytes {parts : List (Nat × Nat)} {limits : List Nat}
    (within : ∀ part ∈ parts, part.1 + part.2 ≤ reader.reader.contentSize)
    (full : List.Forall₂ (fun part limit => part.2 ≤ limit + 1) parts limits) :
    List.zipWith (partBytes reader.reader content) parts limits =
      parts.map fun part => File.range (recordContent reader.reader content) part.1 (part.1 + part.2) := by
  induction full with
  | nil => rfl
  | cons here others ih =>
    rw [List.zipWith_cons_cons, List.map_cons, partBytes_full (within _ List.mem_cons_self) here,
      ih fun other member => within other (List.mem_cons_of_mem _ member)]

theorem forall₂_limits_iff (parts : List (Nat × Nat)) (limits : Nat → Nat) :
    List.Forall₂ (fun part limit => part.2 ≤ limit + 1) parts ((List.range parts.length).map limits) ↔
      ∀ (index : Nat) (part : Nat × Nat), parts[index]? = some part → part.2 ≤ limits index + 1 := by
  rw [List.forall₂_iff_get]
  constructor
  · rintro ⟨-, all⟩ index part found
    obtain ⟨inside, rfl⟩ := List.getElem?_eq_some_iff.mp found
    simpa using all index inside (by simpa using inside)
  · intro all
    refine ⟨by simp, fun index inside _ => ?_⟩
    simpa using all index parts[index] (List.getElem?_eq_getElem inside)

theorem sum_parts (specs : List RangeSpec) :
    ((parts contentLength specs).map Prod.snd).sum = wantedLength contentLength specs := by
  induction specs with
  | nil => rfl
  | cons spec specs ih =>
    have split : parts contentLength (spec :: specs) =
        cut maxIoBufferSize (spec.wanted contentLength).1 (spec.wanted contentLength).2 ++
          parts contentLength specs := rfl
    rw [split, List.map_append, List.sum_append, sum_cut maxIoBufferSize_pos, ih]
    rfl

/-- A partial response is correct if and only if its ranges end inside the record and no read is short. -/
theorem response_correct_iff (reader : OpenReader) (path : String) (content : File) (limits : Nat → Nat)
    (specs : List RangeSpec) (readable : Readable reader.reader content) :
    CorrectResponse reader path content limits specs ↔ SafeRequest reader.reader.contentSize limits specs := by
  have small := readable.small
  have recordLength := length_recordContent reader readable
  have expectedLength : (requested (recordContent reader.reader content) specs).length =
      wantedLength reader.reader.contentSize specs := by rw [length_requested, recordLength]
  have expectedParts := requested_parts (recordContent reader.reader content) specs
  rw [recordLength] at expectedParts
  have within : ∀ part ∈ parts reader.reader.contentSize specs, part.1 + part.2 ≤ reader.reader.contentSize :=
    fun part member => part_within member
  obtain ⟨notMore, lengthIff⟩ := wantedLength_le small specs
  have insideIff : (∀ spec ∈ specs, spec.EndsInside reader.reader.contentSize) ↔
      ∀ first last, .between first last ∈ specs → first ≤ last → last.toNat < reader.reader.contentSize := by
    constructor
    · exact fun inside first last member => inside _ member
    · intro inside spec member
      cases spec with
      | between first last => exact inside first last member
      | startingAt first => trivial
      | suffix length => trivial
      | everything => trivial
  obtain ⟨contentRange, prepared⟩ := prepareResponse_eq small specs
  unfold CorrectResponse
  rw [prepared]
  by_cases nothing : specs.filterMap (RangeSpec.kept reader.reader.contentSize) = []
  · rw [if_pos nothing]
    have noHeader := headerLength_of_nothing nothing
    have noBytes : wantedLength reader.reader.contentSize specs = 0 := by omega
    constructor
    · intro _
      refine ⟨insideIff.mp (lengthIff.mp (by omega)), by rw [← wantedLength, noBytes]; omega, ?_⟩
      intro index part found
      have member := List.mem_map_of_mem (f := Prod.snd) (List.mem_of_getElem? found)
      have bounded := List.le_sum_of_mem member
      rw [sum_parts, noBytes] at bounded
      omega
    · intro _
      exact List.length_eq_zero_iff.mp (expectedLength.trans noBytes)
  · rw [if_neg nothing]
    by_cases fits : headerLength reader.reader.contentSize specs < 2 ^ 64
    · rw [if_pos fits]
      dsimp only
      rw [expectedLength, lengthIff]
      constructor
      · rintro ⟨inside, count, ended, bytes⟩
        have queued := queued_kept small inside
        obtain ⟨early, late⟩ := polls_complete path readable queued limits count
        have enough : (parts reader.reader.contentSize specs).length < count := by
          by_contra notYet
          rw [early (by omega)] at ended
          cases ended
        rw [(late enough).2] at bytes
        refine ⟨insideIff.mp inside, by rw [← wantedLength, ← lengthIff.mpr inside]; exact fits, ?_⟩
        rw [← forall₂_limits_iff]
        refine (full_of_length readable within _ (by simp)).2 ?_
        rw [bytes, expectedLength, sum_parts]
      · intro safe
        have inside := insideIff.mpr safe.inside
        refine ⟨inside, (parts reader.reader.contentSize specs).length + 1, ?_⟩
        obtain ⟨ended, sent⟩ := (polls_complete path readable (queued_kept small inside) limits
          ((parts reader.reader.contentSize specs).length + 1)).2 (Nat.lt_succ_self _)
        refine ⟨ended, ?_⟩
        rw [sent, flatten_partBytes within ((forall₂_limits_iff _ limits).mpr safe.full), expectedParts]
    · rw [if_neg fits]
      refine ⟨False.elim, fun safe => fits ?_⟩
      rw [lengthIff.mpr (insideIff.mpr safe.inside)]
      exact safe.total

end Response

section Example

def middleReader : OpenReader :=
  { reader :=
      { recordMeta := { timestamp := 1, beginPos := 1, endPos := 4, state := .finished, labels := [], contentType := "" }
        entryName := "entry", file := some 1, offset := 1, contentSize := 3 }
    position := 0 }

def threeRecords : File := [9, 1, 2, 3, 7, 8]

theorem response_correct_two :
    CorrectResponse middleReader "1.blk" threeRecords (fun _ => 511) [.between 0 1, .suffix 1] := by
  refine (response_correct_iff middleReader "1.blk" threeRecords (fun _ => 511) [.between 0 1, .suffix 1]
    ⟨fun _ => rfl, by decide, by decide⟩).mpr ⟨?_, by decide, ?_⟩
  · intro first last member _
    simp only [List.mem_cons, RangeSpec.between.injEq, reduceCtorEq, List.not_mem_nil, or_self, or_false] at member
    obtain ⟨rfl, rfl⟩ := member
    decide
  · intro index part found
    have bounded := part_within (List.mem_of_getElem? found)
    simp only [middleReader] at bounded
    omega

theorem response_leaks :
    prepareResponse 3 [.between 0 3] =
        .partialContent 4 (some "bytes 0-3/3") [⟨.included 0, .included 3⟩] ∧
      (RangeBody.polls "1.blk" (some threeRecords) (fun _ => 511)
        { reader := middleReader, ranges := [⟨.included 0, .included 3⟩], sent := [], ending := none } 2).sent =
        [[1, 2, 3, 7]] ∧
      ¬ CorrectResponse middleReader "1.blk" threeRecords (fun _ => 511) [.between 0 3] := by
  have prepared : prepareResponse 3 [.between 0 3] =
      .partialContent 4 (some "bytes 0-3/3") [⟨.included 0, .included 3⟩] := by decide +kernel
  refine ⟨prepared, by decide +kernel, fun correct => ?_⟩
  have same : prepareResponse middleReader.reader.contentSize [.between 0 3] = _ := prepared
  unfold CorrectResponse at correct
  rw [same] at correct
  exact absurd correct.1 (by decide)

end Example

end ReductStore.RecordBody
