import ReductStore.Query.NextSections
import ReductStore.Shared.Cut

set_option autoImplicit false

namespace ReductStore

namespace OpenReader

def seek (state : OpenReader) (offset : Nat) : Except String OpenReader :=
  let newPos := (UInt64.ofNat offset).toInt64.toInt
  if (UInt64.ofNat state.reader.contentSize).toInt64.toInt < newPos ∨ newPos < 0 then
    .error "Seek position out of bounds"
  else .ok { state with position := newPos.toNat }

def read (state : OpenReader) (path : String) (file : Option File) (size limit : Nat) :
    Except String (List UInt8) × OpenReader :=
  match state.reader.file, file with
  | none, _ => (.ok [], state)
  | some _, none => (.error ("[InternalServerError] File " ++ path ++ " does not exist"), state)
  | some _, some content =>
    let start := state.reader.offset + state.position
    let bytes := (File.range content start (start + size)).take (limit + 1)
    (.ok bytes, { state with position := state.position + bytes.length })

theorem seek_inside (state : OpenReader) {offset : Nat} (inside : offset ≤ state.reader.contentSize)
    (small : state.reader.contentSize < 2 ^ 63) : state.seek offset = .ok { state with position := offset } := by
  have cast : ∀ number : Nat, number < 2 ^ 63 → (UInt64.ofNat number).toInt64.toInt = number := by
    intro number less
    rw [UInt64.toInt64_ofNat', Int64.toInt_ofNat_of_lt less]
  unfold seek
  rw [cast offset (by omega), cast _ small, if_neg (by omega)]
  simp

end OpenReader

namespace RecordBody

inductive Bound where
  | included (value : UInt64)
  | unbounded
  deriving DecidableEq

structure ByteRange where
  lower : Bound
  upper : Bound
  deriving DecidableEq

inductive RangeSpec where
  | between (first last : UInt64)
  | startingAt (first : UInt64)
  | suffix (length : UInt64)
  | everything
  deriving DecidableEq

def RangeSpec.bounds (contentLength : Nat) : RangeSpec → Option ByteRange
  | .between first last => some ⟨.included first, .included last⟩
  | .startingAt first => some ⟨.included first, .unbounded⟩
  | .suffix length =>
    if contentLength < length.toNat then none
    else some ⟨.included (UInt64.ofNat (contentLength - length.toNat)), .unbounded⟩
  | .everything => some ⟨.unbounded, .unbounded⟩

def satisfiableRanges (contentLength : Nat) (specs : List RangeSpec) : List ByteRange :=
  specs.filterMap (RangeSpec.bounds contentLength)

def resolveContentRange (initialContentLength : Nat) (range : ByteRange) : Option (Nat × Nat) :=
  match range.lower, range.upper with
  | .included first, .included last => if first ≤ last then some (first.toNat, last.toNat) else none
  | .included first, .unbounded =>
    if first.toNat < initialContentLength then some (first.toNat, initialContentLength - 1) else none
  | .unbounded, .included last => some (0, last.toNat)
  | .unbounded, .unbounded => none

def checkedAdd (first second : Nat) : Option Nat := if first + second < 2 ^ 64 then some (first + second) else none

def checkedSub (first second : Nat) : Option Nat := if second ≤ first then some (first - second) else none

def addLength (sum : Nat) (range : Nat × Nat) : Option Nat := do
  let difference ← checkedSub range.2 range.1
  let length ← checkedAdd difference 1
  checkedAdd sum length

inductive Prepared where
  | rangeNotSatisfiable (contentRange : String)
  | overflow
  | partialContent (contentLength : Nat) (contentRange : Option String) (ranges : List ByteRange)
  deriving DecidableEq

def prepareResponse (initialContentLength : Nat) (specs : List RangeSpec) : Prepared :=
  let ranges := (satisfiableRanges initialContentLength specs).filter fun range =>
    (resolveContentRange initialContentLength range).isSome
  match ranges with
  | [] => .rangeNotSatisfiable ("bytes */" ++ toString initialContentLength)
  | front :: rest =>
    match ((front :: rest).filterMap (resolveContentRange initialContentLength)).foldlM addLength 0 with
    | none => .overflow
    | some contentLength =>
      let contentRange := (resolveContentRange initialContentLength front).map fun (start, last) =>
        "bytes " ++ toString start ++ "-" ++ toString last ++ "/" ++ toString initialContentLength
      .partialContent contentLength contentRange (front :: rest)

inductive Polled where
  | pending
  | data (bytes : List UInt8)
  | ended
  | failed (failure : ReductError)
  | overflow

inductive Span where
  | bytes (start stop : Nat)
  | overflow
  | invalid

def rangeSpan (contentLength : Nat) (range : ByteRange) : Span :=
  match range.lower, range.upper with
  | .included first, .included last => ((checkedAdd last.toNat 1).map (.bytes first.toNat)).getD .overflow
  | .included first, .unbounded => .bytes first.toNat contentLength
  | .unbounded, .included last => ((checkedAdd last.toNat 1).map (.bytes 0)).getD .overflow
  | .unbounded, .unbounded => .invalid

def requeue (start stop : Nat) (ranges : List ByteRange) : List ByteRange :=
  if maxIoBufferSize < stop - start then
    ⟨.included (UInt64.ofNat (start + maxIoBufferSize)), .included (UInt64.ofNat (stop - 1))⟩ :: ranges
  else ranges

def pollRanges (reader : OpenReader) (path : String) (file : Option File) (limit : Nat) (ranges : List ByteRange) :
    Polled × List ByteRange × OpenReader :=
  match ranges with
  | [] => (.ended, [], reader)
  | range :: rest =>
    match rangeSpan reader.reader.contentSize range with
    | .overflow => (.overflow, rest, reader)
    | .invalid => (.failed (unprocessableEntity "Invalid range"), rest, reader)
    | .bytes start stop =>
      match checkedSub stop start with
      | none => (.overflow, rest, reader)
      | some length =>
        match reader.seek start with
        | .error failure => (.failed (internalServerError ("Seek error: " ++ failure)), rest, reader)
        | .ok reader =>
          -- the queue moves by the size of the buffer, not by the number of bytes that were read
          match reader.read path file (min length maxIoBufferSize) limit with
          | (.ok [], reader) => (.ended, requeue start stop rest, reader)
          | (.ok bytes, reader) => (.data bytes, requeue start stop rest, reader)
          | (.error failure, reader) =>
            (.failed (internalServerError ("Read error: " ++ failure)), requeue start stop rest, reader)

def pollRecord (reader : OpenReader) (path : String) (file : Option File) (limit : Nat) : Polled × OpenReader :=
  match reader.readChunk path file limit with
  | (none, reader) => (.ended, reader)
  | (some (.ok chunk), reader) => (.data chunk, reader)
  | (some (.error failure), reader) => (.failed failure, reader)

end RecordBody

end ReductStore
