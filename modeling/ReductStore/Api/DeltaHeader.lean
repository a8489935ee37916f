import ReductStore.Api.BatchHeader
import ReductStore.Shared.Percent

set_option autoImplicit false

namespace ReductStore

namespace DeltaHeader

open Text BatchHeader

section Names

def isTchar (byte : UInt8) : Bool :=
  (48 ≤ byte && byte ≤ 57) || (65 ≤ byte && byte ≤ 90) || (97 ≤ byte && byte ≤ 122) ||
    byte ∈ [33, 35, 36, 37, 38, 39, 42, 43, 45, 46, 94, 95, 96, 124, 126]

def encodeEntryName (entry : List Char) : List Char := Percent.encode isTchar (Percent.utf8 entry)

def decodeEntryName (encoded : List Char) : Except ReductError (List Char) :=
  match Percent.decode (Percent.utf8 encoded) with
  | none => .error (unprocessableEntity ("Invalid entry encoding in header name: '" ++ String.ofList encoded ++ "'"))
  | some bytes =>
    match Percent.fromUtf8 bytes with
    | none => .error (unprocessableEntity ("Entry name is not valid UTF-8 in header '" ++ String.ofList encoded ++ "'"))
    | some entry => .ok entry

def decodeLabelName (encoded : List Char) : Except ReductError (List Char) :=
  match decodeEntryName encoded with
  | .ok name => .ok name
  | .error _ =>
    .error (unprocessableEntity ("Invalid label encoding in header value: '" ++ String.ofList encoded ++ "'"))

def parseEntriesHeader (entries : List Char) : Except ReductError (List (List Char)) :=
  if trim entries = [] then .error (unprocessableEntity "x-reduct-entries header is required")
  else
    (entries.splitOn ',').mapM fun entry =>
      if trim entry = [] then
        .error (unprocessableEntity "x-reduct-entries header must not contain empty entry names")
      else decodeEntryName (trim entry)

def parseLabelsHeader (labels : List Char) : Except ReductError (List (List Char)) :=
  if trim labels = [] then .error (unprocessableEntity "x-reduct-labels header is empty")
  else (labels.splitOn ',').mapM fun label => decodeLabelName (trim label)

end Names

section Encoder

def ensure (names : List String) (name : String) : Nat × List String :=
  if name ∈ names then (names.idxOf name, names) else (names.length, names ++ [name])

def labelValue (labels : List Label) (name : String) : Option String :=
  (labels.find? (·.name = name)).map Label.value

def changedLabels (previous labels : List Label) : List Label :=
  let keys := ((previous ++ labels).map Label.name).insertionSort (· ≤ ·)
  keys.dedup.filterMap fun key =>
    match labelValue previous key, labelValue labels key with
    | some before, some now => if before = now then none else some { name := key, value := now }
    | some _, none => some { name := key, value := "" }
    | none, some now => some { name := key, value := now }
    | none, none => none

def labelChanges (record : RecordMeta) (previous : Option RecordMeta) : List Label :=
  (match previous with
    | some before => changedLabels before.labels record.labels
    | none => record.labels) ++
  record.computedLabels.map fun label => { label with name := "@" ++ label.name }

def indexChanges : List Label → List String → List (Nat × String) × List String
  | [], names => ([], names)
  | change :: changes, names =>
    let (index, names) := ensure names change.name
    let (rest, names) := indexChanges changes names
    ((index, change.value) :: rest, names)

def changeText (change : Nat × String) : LabelText := ((toString change.1).toList, change.2.toList)

def buildLabelDelta (record : RecordMeta) (previous : Option RecordMeta) (names : List String) :
    List Char × List String :=
  let (deltas, names) := indexChanges (labelChanges record previous) names
  let deltas := deltas.insertionSort fun first second => first.1 ≤ second.1
  (joined (deltas.map changeText), names)

def makeRecordHeaderValue (record : RecordMeta) (previous : Option RecordMeta) (names : List String) :
    List Char × List String :=
  let contentType := match previous with
    | some before => if before.contentType ≠ record.contentType then record.contentType else ""
    | none => record.contentType
  let (delta, names) := buildLabelDelta record previous names
  let parts := [(toString record.contentLength).toList] ++
    (if contentType ≠ "" ∨ delta ≠ [] then [contentType.toList] else []) ++ if delta ≠ [] then [delta] else []
  ([','].intercalate parts, names)

def encodeRecords : (String → Option RecordMeta) → List String → List RecordMeta →
    List (RecordMeta × List Char) × List String
  | _, names, [] => ([], names)
  | previous, names, record :: records =>
    let (value, names) := makeRecordHeaderValue record (previous record.entryName) names
    let (values, names) := encodeRecords (Function.update previous record.entryName (some record)) names records
    ((record, value) :: values, names)

abbrev Headers := List LabelText

def entriesHeader : List Char := "x-reduct-entries".toList

def startTsHeader : List Char := "x-reduct-start-ts".toList

def labelsHeader : List Char := "x-reduct-labels".toList

def headerPrefix : List Char := "x-reduct-".toList

def makeBatchedHeaderName (entryIndex timeDelta : Nat) : List Char :=
  headerPrefix ++ (toString entryIndex).toList ++ '-' :: (toString timeDelta).toList

def joinNames (names : List String) : List Char :=
  [','].intercalate (names.map fun name => encodeEntryName name.toList)

def startTs (records : List RecordMeta) : Nat := ((records.map RecordMeta.timestamp).min?).getD 0

end Encoder

section Decoder

def resolveLabelName (raw : List Char) (names : Option (List (List Char))) : Except ReductError (List Char) :=
  match names, parseUnsigned (2 ^ 64) raw with
  | some names, some index =>
    match names[index]? with
    | some name => .ok name
    | none => .error (unprocessableEntity ("Label index '" ++ String.ofList raw ++ "' is out of range"))
  | _, _ =>
    if raw.head? = some '@' then
      .error (unprocessableEntity "Label names must not start with '@': reserved for computed labels")
    else .ok raw

def takeValue : List Char → Option (List Char × List Char)
  | '"' :: part => (splitOnce '"' part).map fun (value, rest) => (trim value, trim (rest.dropWhile (· = ',')))
  | part =>
    match splitOnce ',' part with
    | some (value, rest) => some (trim value, trim rest)
    | none => some (trim part, [])

theorem takeValue_shorter {text key part value rest : List Char} (split : splitOnce '=' text = some (key, part))
    (taken : takeValue part = some (value, rest)) : rest.length < text.length := by
  have whole := splitOnce_length split
  unfold takeValue at taken
  split at taken
  next part =>
    obtain ⟨⟨value, behind⟩, ended, same⟩ := Option.map_eq_some_iff.mp taken
    obtain ⟨rfl, rfl⟩ := Prod.mk.inj same
    exact quoted_shorter split ended
  next part _ =>
    split at taken
    next value behind more =>
      obtain ⟨rfl, rfl⟩ := Prod.mk.inj (Option.some.inj taken)
      exact unquoted_shorter split more
    next =>
      obtain ⟨rfl, rfl⟩ := Prod.mk.inj (Option.some.inj taken)
      simp only [List.length_nil]
      omega

def parseDeltaLoop (names : Option (List (List Char))) (text : List Char) (ops : List (List Char × Option (List Char))) :
    Except ReductError (List (List Char × Option (List Char))) :=
  match split : splitOnce '=' text with
  | none => .error (unprocessableEntity "Invalid batched header")
  | some (rawKey, part) =>
    match resolveLabelName (trim rawKey) names with
    | .error failure => .error failure
    | .ok key =>
      match taken : takeValue part with
      | none => .error (unprocessableEntity "Invalid batched header")
      | some (value, rest) =>
        have _shorter := takeValue_shorter split taken
        let ops := ops ++ [(key, if value = [] then none else some value)]
        if rest = [] then .ok ops else parseDeltaLoop names rest ops
termination_by text.length

def parseLabelDeltaOps (rawLabels : List Char) (names : Option (List (List Char))) :
    Except ReductError (List (List Char × Option (List Char))) :=
  if trim rawLabels = [] then .ok [] else parseDeltaLoop names (trim rawLabels) []

def applyOp (labels : List LabelText) (op : List Char × Option (List Char)) : List LabelText :=
  match op.2 with
  | some value => insertLabel labels (op.1, value)
  | none => labels.filter (·.1 ≠ op.1)

def applyLabelDelta (rawLabels : List Char) (base : List LabelText) (names : Option (List (List Char))) :
    Except ReductError (List LabelText) :=
  (parseLabelDeltaOps rawLabels names).map fun ops => ops.foldl applyOp base

def parseRecordHeaderWithDefaults (raw : List Char) (previous : Option ParsedHeader) (names : Option (List (List Char))) :
    Except ReductError ParsedHeader :=
  let (length, rest) := match splitOnce ',' raw with
    | some (length, rest) => (trim length, some rest)
    | none => (trim raw, none)
  match parseUnsigned (2 ^ 64) length, rest with
  | none, _ => .error (unprocessableEntity "Invalid batched header")
  | some contentLength, none =>
    match previous with
    | none =>
      .error (unprocessableEntity "Content-type and labels must be provided for the first record of an entry")
    | some before => .ok { before with contentLength }
  | some contentLength, some rest =>
    let (typeText, delta) := match splitOnce ',' rest with
      | some (contentType, labels) => (contentType, some labels)
      | none => (rest, none)
    let contentType := if trim typeText ≠ [] then trim typeText else (previous.map (·.contentType)).getD octetStream
    let base := (previous.map (·.labels)).getD []
    match delta with
    | none => .ok { contentLength, contentType, labels := base }
    | some delta => (applyLabelDelta delta base names).map fun labels => { contentLength, contentType, labels }

def rsplitOnce (separator : Char) (text : List Char) : Option (List Char × List Char) :=
  (splitOnce separator text.reverse).map fun (back, front) => (front.reverse, back.reverse)

def parseBatchedHeaderName (name : List Char) : Except ReductError (Nat × Nat) :=
  let shown := String.ofList name
  if ¬ headerPrefix <+: name then .error (unprocessableEntity ("Invalid batched header '" ++ shown ++ "'"))
  else
    match rsplitOnce '-' (name.drop headerPrefix.length) with
    | none => .error (unprocessableEntity ("Invalid batched header '" ++ shown ++ "'"))
    | some (entryIndex, delta) =>
      match parseUnsigned (2 ^ 64) entryIndex, parseUnsigned (2 ^ 64) delta with
      | none, _ =>
        .error (unprocessableEntity ("Invalid header '" ++ shown ++ "': entry index must be a number"))
      | some _, none =>
        .error (unprocessableEntity ("Invalid header '" ++ shown ++ "': must be an unix timestamp in microseconds"))
      | some entryIndex, some delta => .ok (entryIndex, delta)

def isRecordName (name : List Char) : Bool :=
  headerPrefix.isPrefixOf name && (rsplitOnce '-' name).any fun (_, time) => time.all Char.isDigit

def sortHeadersByEntryAndTime (headers : Headers) : Except ReductError (List ((Nat × Nat) × List Char)) := do
  let parsed ← (headers.filter fun header => isRecordName header.1).mapM fun header =>
    (parseBatchedHeaderName header.1).map fun place => (place, header.2)
  pure (parsed.insertionSort fun first second =>
    first.1.1 < second.1.1 ∨ first.1.1 = second.1.1 ∧ first.1.2 ≤ second.1.2)

structure EntryRecordHeader where
  entry : List Char
  timestamp : Nat
  header : ParsedHeader
  deriving DecidableEq

def toStr (value : List Char) (message : String) : Except ReductError (List Char) :=
  if BucketWrapper.isHeaderText (String.ofList value) then .ok value else .error (unprocessableEntity message)

def headerValue (headers : Headers) (name : List Char) : Option (List Char) :=
  (headers.find? (·.1 = name)).map Prod.snd

end Decoder

end DeltaHeader

end ReductStore
