import ReductStore.Api.DeltaBatch
import ReductStore.Condition.MachineInt

set_option autoImplicit false

namespace ReductStore.DeltaHeader

open Text BatchHeader Condition

section EntryNames

theorem isTchar_ascii (byte : UInt8) (kept : isTchar byte = true) : byte.toNat < 128 := by
  have table : ∀ number < 256, isTchar (UInt8.ofNat number) = true → number < 128 := by decide +kernel
  exact table byte.toNat byte.toNat_lt (by rwa [UInt8.ofNat_toNat])

theorem decodeEntryName_iff (text : List Char) : decodeEntryName (encodeEntryName text) = .ok text ↔ '%' ∉ text := by
  refine ⟨fun decoded percent => ?_, decodeEntryName_encoded⟩
  rw [decodeEntryName, encodeEntryName] at decoded
  cases bytes : Percent.decode (Percent.utf8 (Percent.encode isTchar (Percent.utf8 text))) with
  | none => simp [bytes] at decoded
  | some bytes' =>
    simp only [bytes] at decoded
    cases read : Percent.fromUtf8 bytes' with
    | none => simp [read] at decoded
    | some name =>
      simp only [read, Except.ok.injEq] at decoded
      subst decoded
      have present : (37 : UInt8) ∈ Percent.utf8 name := List.mem_flatMap.mpr ⟨'%', percent, by decide⟩
      have shorter := (Percent.decode_length isTchar_ascii _ bytes).2 (by decide) present
      rw [Percent.fromUtf8_eq_some read] at shorter
      exact absurd shorter (lt_irrefl _)

/-- The names of entries come back exactly if none has a percent sign. An encoded name has no comma and no blank anyway. -/
theorem entries_come_back (entries : List String) (filled : entries ≠ []) (named : ∀ entry ∈ entries, entry ≠ "") :
    (parseEntriesHeader (joinNames entries) = .ok (entries.map String.toList) ↔ ∀ entry ∈ entries, '%' ∉ entry.toList) ∧
      ∀ text : List Char, (decodeEntryName (encodeEntryName text) = .ok text ↔ '%' ∉ text) ∧
        ∀ char ∈ encodeEntryName text, char ≠ ',' ∧ isWhitespace char = false := by
  refine ⟨⟨fun read => ?_, fun clear => ?_⟩, fun text => ⟨decodeEntryName_iff text, fun char member => ?_⟩⟩
  · have several : entries ≠ [""] := by
      rintro rfl
      exact named "" List.mem_cons_self rfl
    rw [parseEntriesHeader, trim_joinNames, if_neg (joinNames_filled filled several), splitOn_joinNames filled, List.mapM_map,
      mapM_eq_ok, List.forall₂_map_right_iff, List.forall₂_same] at read
    intro entry member
    have same := read entry member
    rw [Function.comp_apply, trim_names (nameChar_encoded _),
      if_neg fun empty => named entry member (encodeEntryName_eq_nil empty)] at same
    exact (decodeEntryName_iff _).mp same
  · exact parseEntriesHeader_joined filled fun entry member => ⟨named entry member, clear entry member⟩
  · exact ⟨(nameChar_encoded text char member).comma, (nameChar_encoded text char member).blank⟩

theorem entries_come_back_blank : parseEntriesHeader (joinNames ["a b", "c,d"]) = .ok ["a b".toList, "c,d".toList] :=
  (entries_come_back ["a b", "c,d"] (by decide) (by decide)).1.mpr (by decide +kernel)

theorem entries_change :
    parseEntriesHeader (joinNames ["a%41"]) = .ok ["aA".toList] ∧
      parseEntriesHeader (joinNames ["%"]) =
        .error (unprocessableEntity "Invalid entry encoding in header name: '%'") := by
  decide +kernel

end EntryNames

section Updates

abbrev LabelOp := List Char × Option (List Char)

def labelPart (raw : List Char) : Option (List Char) :=
  (splitOnce ',' raw).bind fun parts => (splitOnce ',' parts.2).map Prod.snd

def splitOp (delta : List LabelText × List (List Char)) (op : LabelOp) : List LabelText × List (List Char) :=
  match op.2 with
  | some value => (insertLabel delta.1 (op.1, value), delta.2)
  | none => (delta.1, delta.2.insert op.1)

def parseLabelDelta (rawLabels : List Char) (names : Option (List (List Char))) :
    Except ReductError (List LabelText × List (List Char)) :=
  (parseLabelDeltaOps rawLabels names).map fun ops => ops.foldl splitOp ([], [])

def setState (state : List LabelOp) (key : List Char) (value : Option (List Char)) : List LabelOp :=
  state.filter (·.1 ≠ key) ++ [(key, value)]

def mergeDelta (state : List LabelOp) (delta : List LabelText × List (List Char)) : List LabelOp :=
  delta.2.foldl (fun state key => setState state key none)
    (delta.1.foldl (fun state label => setState state label.1 (some label.2)) state)

structure EntryLabelUpdateHeader where
  entry : List Char
  timestamp : Nat
  update : List LabelText
  remove : List (List Char)
  deriving DecidableEq

def readRecord (entries : List (List Char)) (names : Option (List (List Char))) (last : List Char → Option ParsedHeader)
    (place : Nat × Nat) (value : List Char) : Except ReductError (List Char × ParsedHeader) :=
  match entries[place.1]? with
  | none =>
    .error (unprocessableEntity ("Invalid header 'x-reduct-" ++ toString place.1 ++ "-" ++ toString place.2 ++
      "': entry index out of range"))
  | some entry =>
    ((toStr value "Invalid batched header").bind (parseRecordHeaderWithDefaults · (last entry) names)).map (entry, ·)

def parseSorted (build : Build) (entries : List (List Char)) (start : Nat) (names : Option (List (List Char))) :
    List ((Nat × Nat) × List Char) → (List Char → Option ParsedHeader) →
      Option (Except ReductError (List EntryRecordHeader))
  | [], _ => some (.ok [])
  | (place, value) :: headers, last =>
    match readRecord entries names last place value with
    | .error failure => some (.error failure)
    | .ok (entry, header) =>
      (build.addU64 start place.2).bind fun timestamp =>
        (parseSorted build entries start names headers (Function.update last entry (some header))).map fun rest =>
          rest.map fun rest => { entry, timestamp, header } :: rest

def updateSorted (build : Build) (entries : List (List Char)) (start : Nat) (names : Option (List (List Char))) :
    List ((Nat × Nat) × List Char) → (List Char → Option ParsedHeader) → (List Char → List LabelOp) →
      Option (Except ReductError (List EntryLabelUpdateHeader))
  | [], _, _ => some (.ok [])
  | (place, value) :: headers, last, states =>
    match readRecord entries names last place value with
    | .error failure => some (.error failure)
    | .ok (entry, header) =>
      let state : Except ReductError (List LabelOp) := match labelPart value with
        | none => .ok (states entry)
        | some rawLabels => (parseLabelDelta rawLabels names).map (mergeDelta (states entry))
      match state with
      | .error failure => some (.error failure)
      | .ok state =>
        (build.addU64 start place.2).bind fun timestamp =>
          (updateSorted build entries start names headers (Function.update last entry (some header))
            (Function.update states entry state)).map fun rest => rest.map fun rest =>
              { entry, timestamp
                update := state.filterMap fun op => op.2.map fun value => (op.1, value)
                remove := (state.filter (·.2 = none)).map Prod.fst } :: rest

def parseEntries (headers : Headers) : Except ReductError (List (List Char)) :=
  match headerValue headers entriesHeader with
  | some entries => (toStr entries "Invalid entries header").bind parseEntriesHeader
  | none => .ok []

def parseStartTimestamp (headers : Headers) : Except ReductError Nat :=
  match headerValue headers startTsHeader with
  | none => .error (unprocessableEntity "x-reduct-start-ts header is required")
  | some start => (toStr start "Invalid x-reduct-start-ts header").bind fun start =>
    match parseUnsigned (2 ^ 64) start with
    | none => .error (unprocessableEntity "Invalid x-reduct-start-ts header")
    | some start => .ok start

def parseLabels (headers : Headers) : Except ReductError (Option (List (List Char))) :=
  match headerValue headers labelsHeader with
  | none => .ok none
  | some labels => ((toStr labels "Invalid labels header").bind parseLabelsHeader).map some

def readFront (headers : Headers) : Except ReductError (List (List Char) × Nat × Option (List (List Char))) :=
  (parseEntries headers).bind fun entries => (parseStartTimestamp headers).bind fun start =>
    (parseLabels headers).map fun names => (entries, start, names)

structure HeaderMap where
  named : List (List Char × List Char × List (List Char))
  distinct : (named.map Prod.fst).Nodup

def HeaderMap.firsts (headers : HeaderMap) : Headers := headers.named.map fun header => (header.1, header.2.1)

def HeaderMap.parseWith {Item : Type} (headers : HeaderMap)
    (loop : List (List Char) → Nat → Option (List (List Char)) → List ((Nat × Nat) × List Char) →
      Option (Except ReductError (List Item))) : Option (Except ReductError (List Item)) :=
  match readFront headers.firsts with
  | .error failure => some (.error failure)
  | .ok (entries, start, names) =>
    match sortHeadersByEntryAndTime headers.firsts with
    | .error failure => some (.error failure)
    | .ok sorted => loop entries start names sorted

def HeaderMap.parseBatchedHeaders (build : Build) (headers : HeaderMap) :
    Option (Except ReductError (List EntryRecordHeader)) :=
  headers.parseWith fun entries start names sorted => parseSorted build entries start names sorted fun _ => none

def HeaderMap.parseBatchedUpdateHeaders (build : Build) (headers : HeaderMap) :
    Option (Except ReductError (List EntryLabelUpdateHeader)) :=
  headers.parseWith fun entries start names sorted => updateSorted build entries start names sorted (fun _ => none) fun _ => []

theorem HeaderMap.parseWith_ok {Item : Type} {headers : HeaderMap} {items : List Item}
    {loop : List (List Char) → Nat → Option (List (List Char)) → List ((Nat × Nat) × List Char) →
      Option (Except ReductError (List Item))} (parsed : headers.parseWith loop = some (.ok items)) :
    ∃ entries start names sorted, readFront headers.firsts = .ok (entries, start, names) ∧
      sortHeadersByEntryAndTime headers.firsts = .ok sorted ∧ loop entries start names sorted = some (.ok items) := by
  rw [HeaderMap.parseWith] at parsed
  rcases read : readFront headers.firsts with failure | ⟨entries, start, names⟩
  · simp [read] at parsed
  rcases arranged : sortHeadersByEntryAndTime headers.firsts with failure | sorted
  · simp [read, arranged] at parsed
  simp only [read, arranged] at parsed
  exact ⟨entries, start, names, sorted, rfl, rfl, parsed⟩

theorem readFront_ok {headers : Headers} {front : List (List Char) × Nat × Option (List (List Char))}
    (read : readFront headers = .ok front) :
    parseEntries headers = .ok front.1 ∧ parseStartTimestamp headers = .ok front.2.1 ∧ parseLabels headers = .ok front.2.2 := by
  rw [readFront] at read
  rcases entries : parseEntries headers with _ | _
  · simp [entries, Except.bind] at read
  rcases start : parseStartTimestamp headers with _ | _
  · simp [entries, start, Except.bind] at read
  rcases names : parseLabels headers with _ | _
  · simp [entries, start, names, Except.bind, Except.map] at read
  simp only [entries, start, names, Except.bind, Except.map, Except.ok.injEq] at read
  subst read
  exact ⟨rfl, rfl, rfl⟩

def EntryLabelUpdateHeader.applied (header : EntryLabelUpdateHeader) : List LabelText :=
  header.update.filter fun label => ! header.remove.contains label.1

def revives (ops : List LabelOp) : Bool :=
  ops.any fun op => op.2 = none && (ops.filter (·.1 = op.1)).getLast?.any (·.2.isSome)

def revivesLabel (names : Option (List (List Char))) (value : List Char) : Bool :=
  match labelPart value with
  | none => false
  | some rawLabels =>
    match parseLabelDeltaOps rawLabels names with
    | .ok ops => revives ops
    | .error _ => false

section Deltas

variable {key : List Char} {value : Option (List Char)} {state : List LabelOp}

theorem mem_setState {other : List Char} {content : Option (List Char)} :
    (key, value) ∈ setState state other content ↔ key = other ∧ value = content ∨ key ≠ other ∧ (key, value) ∈ state := by
  simp only [setState, List.mem_append, List.mem_filter, List.mem_singleton, decide_eq_true_eq, Prod.mk.injEq]
  tauto

theorem mem_foldl_remove (keys : List (List Char)) :
    (key, value) ∈ keys.foldl (fun state key => setState state key none) state ↔
      key ∈ keys ∧ value = none ∨ key ∉ keys ∧ (key, value) ∈ state := by
  induction keys generalizing state with
  | nil => simp
  | cons first keys ih =>
    rw [List.foldl_cons, ih, mem_setState, List.mem_cons]
    tauto

theorem mem_foldl_update (labels : List LabelText) (nodup : (labels.map Prod.fst).Nodup) :
    (key, value) ∈ labels.foldl (fun state label => setState state label.1 (some label.2)) state ↔
      (∃ text, (key, text) ∈ labels ∧ value = some text) ∨ key ∉ labels.map Prod.fst ∧ (key, value) ∈ state := by
  induction labels generalizing state with
  | nil => simp
  | cons label labels ih =>
    rw [List.map_cons, List.nodup_cons] at nodup
    rw [List.foldl_cons, ih nodup.2, mem_setState, List.map_cons]
    obtain ⟨name, content⟩ := label
    by_cases same : key = name
    · subst same
      have absent : ∀ text, (key, text) ∉ labels := fun text member => nodup.1 (List.mem_map.mpr ⟨_, member, rfl⟩)
      simp [absent, nodup.1]
    · simp [same]

theorem foldl_splitOp (ops : List LabelOp) (delta : List LabelText × List (List Char)) :
    (ops.foldl splitOp delta).1 = (ops.filter (·.2.isSome)).foldl applyOp delta.1 ∧
      ∀ key, key ∈ (ops.foldl splitOp delta).2 ↔ key ∈ delta.2 ∨ (key, none) ∈ ops := by
  induction ops generalizing delta with
  | nil => simp
  | cons op ops ih =>
    obtain ⟨name, content⟩ := op
    obtain ⟨updates, removals⟩ := ih (splitOp delta (name, content))
    rw [List.foldl_cons]
    refine ⟨updates.trans ?_, fun key => (removals key).trans ?_⟩
    · cases content <;> simp [splitOp, applyOp]
    · cases content with
      | some content => simp [splitOp]
      | none =>
        simp only [splitOp, List.mem_insert_iff, List.mem_cons, Prod.mk.injEq, and_true]
        tauto

theorem mem_mergeDelta (ops : List LabelOp) (state : List LabelOp) :
    (key, value) ∈ mergeDelta state (ops.foldl splitOp ([], [])) ↔
      if (key, none) ∈ ops then value = none
      else match (ops.filter (·.1 = key)).getLast? with
        | some op => value = op.2
        | none => (key, value) ∈ state := by
  obtain ⟨updates, removals⟩ := foldl_splitOp ops ([], [])
  have nodup : ((ops.foldl splitOp ([], [])).1.map Prod.fst).Nodup := by
    rw [updates]
    exact nodup_foldl_applyOp _ List.nodup_nil
  rw [mergeDelta, mem_foldl_remove, mem_foldl_update _ nodup, removals]
  simp only [List.not_mem_nil, false_or]
  split_ifs with removed
  · simp [removed]
  · simp only [removed, false_and, not_false_eq_true, true_and, false_or]
    -- all changes of this label set it
    have own : (ops.filter (·.2.isSome)).filter (·.1 = key) = ops.filter (·.1 = key) := by
      rw [List.filter_filter]
      refine List.filter_congr fun op member => ?_
      rcases op with ⟨name, _ | content⟩
      · by_cases same : name = key
        · exact absurd (same ▸ member) removed
        · simp [same]
      · simp
    have updated (text : List Char) : (key, text) ∈ (ops.foldl splitOp ([], [])).1 ↔
        match (ops.filter (·.1 = key)).getLast? with
        | some op => op.2 = some text
        | none => False := by
      rw [updates, mem_foldl_applyOp, own]
      cases (ops.filter (·.1 = key)).getLast? <;> simp
    have known : key ∈ (ops.foldl splitOp ([], [])).1.map Prod.fst ↔
        ∃ text, (key, text) ∈ (ops.foldl splitOp ([], [])).1 := by simp
    rw [known]
    simp only [updated]
    cases last : (ops.filter (·.1 = key)).getLast? with
    | none => simp
    | some op =>
      have member := List.mem_filter.mp (List.mem_of_getLast? last)
      rcases op with ⟨name, _ | content⟩
      · obtain rfl : name = key := by simpa using member.2
        exact absurd member.1 removed
      · simp

end Deltas

section Agreement

variable {names : Option (List (List Char))}

def Agrees (labels : List LabelText) (state : List LabelOp) : Prop :=
  (state.map Prod.fst).Nodup ∧ ∀ key value, (key, value) ∈ labels ↔ (key, some value) ∈ state

theorem nodup_setState {state : List LabelOp} (nodup : (state.map Prod.fst).Nodup) (key : List Char)
    (value : Option (List Char)) : ((setState state key value).map Prod.fst).Nodup := by
  rw [setState, List.map_append, List.map_singleton, ← List.concat_eq_append, List.nodup_concat]
  refine ⟨fun member => ?_, nodup.sublist (List.filter_sublist.map Prod.fst)⟩
  obtain ⟨other, kept, same⟩ := List.mem_map.mp member
  simpa [same] using (List.mem_filter.mp kept).2

theorem nodup_mergeDelta {state : List LabelOp} (nodup : (state.map Prod.fst).Nodup)
    (delta : List LabelText × List (List Char)) : ((mergeDelta state delta).map Prod.fst).Nodup := by
  have kept {Item : Type} (items : List Item) (key : Item → List Char) (value : Item → Option (List Char))
      {state : List LabelOp} (nodup : (state.map Prod.fst).Nodup) :
      ((items.foldl (fun state item => setState state (key item) (value item)) state).map Prod.fst).Nodup := by
    induction items generalizing state with
    | nil => exact nodup
    | cons item items ih => exact ih (nodup_setState nodup _ _)
  exact kept delta.2 id (fun _ => none) (kept delta.1 Prod.fst (fun label => some label.2) nodup)

theorem revives_iff (ops : List LabelOp) :
    revives ops = true ↔ ∃ key value, (key, none) ∈ ops ∧ (ops.filter (·.1 = key)).getLast? = some (key, some value) := by
  rw [revives, List.any_eq_true]
  constructor
  · rintro ⟨⟨key, content⟩, member, checked⟩
    simp only [Bool.and_eq_true, decide_eq_true_eq, Option.any_eq_true] at checked
    obtain ⟨rfl, ⟨name, last⟩, found, set_⟩ := checked
    obtain ⟨value, rfl⟩ := Option.isSome_iff_exists.mp set_
    obtain rfl : name = key := by simpa using (List.mem_filter.mp (List.mem_of_getLast? found)).2
    exact ⟨name, value, member, found⟩
  · rintro ⟨key, value, member, found⟩
    exact ⟨(key, none), member, by simp [found]⟩

theorem Agrees.delta {labels : List LabelText} {state : List LabelOp} (agrees : Agrees labels state) {ops : List LabelOp}
    (plain : revives ops = false) : Agrees (ops.foldl applyOp labels) (mergeDelta state (ops.foldl splitOp ([], []))) := by
  refine ⟨nodup_mergeDelta agrees.1 _, fun key value => ?_⟩
  rw [mem_foldl_applyOp, mem_mergeDelta]
  split_ifs with removed
  · -- the last change of a label that is removed does not set it
    cases last : (ops.filter (·.1 = key)).getLast? with
    | none =>
      rw [List.getLast?_eq_none_iff, List.filter_eq_nil_iff] at last
      exact absurd (decide_eq_true rfl) (last _ removed)
    | some op =>
      simp only [iff_false]
      intro set_
      obtain rfl : op.1 = key := by simpa using (List.mem_filter.mp (List.mem_of_getLast? last)).2
      have revived : revives ops = true := (revives_iff ops).mpr ⟨op.1, value, removed, by rw [last, ← set_]⟩
      rw [plain] at revived
      cases revived
  · cases (ops.filter (·.1 = key)).getLast? with
    | none => exact agrees.2 key value
    | some op => exact eq_comm

theorem Agrees.applied {labels : List LabelText} {state : List LabelOp} (agrees : Agrees labels state) (entry : List Char)
    (timestamp : Nat) (label : LabelText) :
    label ∈ labels ↔ label ∈ EntryLabelUpdateHeader.applied
      { entry, timestamp
        update := state.filterMap fun op => op.2.map fun value => (op.1, value)
        remove := (state.filter (·.2 = none)).map Prod.fst } := by
  obtain ⟨key, value⟩ := label
  have updated : (key, value) ∈ (state.filterMap fun op => op.2.map fun value => (op.1, value)) ↔ (key, some value) ∈ state := by
    simp only [List.mem_filterMap, Option.map_eq_some_iff, Prod.mk.injEq]
    constructor
    · rintro ⟨⟨name, content⟩, member, text, rfl, rfl, rfl⟩
      exact member
    · exact fun member => ⟨_, member, value, rfl, rfl, rfl⟩
  rw [agrees.2, EntryLabelUpdateHeader.applied, List.mem_filter, updated]
  refine ⟨fun member => ⟨member, ?_⟩, And.left⟩
  -- a key is not set and removed at once
  rw [Bool.not_eq_true', List.contains_eq_mem, decide_eq_false_iff_not]
  intro inside
  obtain ⟨op, kept, same⟩ := List.mem_map.mp inside
  obtain ⟨removed, empty⟩ := List.mem_filter.mp kept
  have equal := List.inj_on_of_nodup_map agrees.1 member removed same.symm
  rw [← equal] at empty
  cases of_decide_eq_true empty

theorem parsed_labels {raw : List Char} {previous : Option ParsedHeader} {header : ParsedHeader}
    (parsed : parseRecordHeaderWithDefaults raw previous names = .ok header) :
    match labelPart raw with
    | none => header.labels = (previous.map (·.labels)).getD []
    | some rawLabels => ∃ ops, parseLabelDeltaOps rawLabels names = .ok ops ∧
        header.labels = ops.foldl applyOp ((previous.map (·.labels)).getD []) := by
  rw [parseRecordHeaderWithDefaults] at parsed
  rw [labelPart]
  cases first : splitOnce ',' raw with
  | none =>
    simp only [first] at parsed
    cases length : parseUnsigned (2 ^ 64) (trim raw) with
    | none => simp only [length, reduceCtorEq] at parsed
    | some contentLength =>
      simp only [length] at parsed
      cases previous with
      | none => cases parsed
      | some before =>
        obtain rfl := Except.ok.inj parsed
        rfl
  | some parts =>
    obtain ⟨front, rest⟩ := parts
    simp only [first] at parsed
    cases length : parseUnsigned (2 ^ 64) (trim front) with
    | none => simp only [length, reduceCtorEq] at parsed
    | some contentLength =>
      simp only [length] at parsed
      cases second : splitOnce ',' rest with
      | none =>
        simp only [second] at parsed
        obtain rfl := Except.ok.inj parsed
        simp [second]
      | some parts =>
        obtain ⟨typeText, rawLabels⟩ := parts
        simp only [second, applyLabelDelta] at parsed
        simp only [Option.bind_some, second, Option.map_some]
        cases read : parseLabelDeltaOps rawLabels names with
        | error failure => simp [read, Except.map] at parsed
        | ok ops =>
          simp only [read, Except.map, Except.ok.injEq] at parsed
          exact ⟨ops, rfl, by rw [← parsed]⟩

theorem revived_differs (labels : List LabelText) (state : List LabelOp) {ops : List LabelOp} (revived : revives ops = true)
    (agrees : ∀ label : LabelText, label ∈ ops.foldl applyOp labels →
      (label.1, some label.2) ∈ mergeDelta state (ops.foldl splitOp ([], []))) : False := by
  obtain ⟨key, value, removed, last⟩ := (revives_iff ops).mp revived
  have present : (key, value) ∈ ops.foldl applyOp labels := by
    rw [mem_foldl_applyOp, last]
  have kept := agrees _ present
  rw [mem_mergeDelta, if_pos removed] at kept
  cases kept

def SameLabels (record : EntryRecordHeader) (update : EntryLabelUpdateHeader) : Prop :=
  ∀ label, label ∈ record.header.labels ↔ label ∈ update.applied

theorem map_eq_ok {Failure Source Target : Type} {result : Except Failure Source} {change : Source → Target} {value : Target}
    (done : result.map change = .ok value) : ∃ source, result = .ok source ∧ change source = value := by
  cases result with
  | error failure => cases done
  | ok source => exact ⟨source, rfl, Except.ok.inj done⟩

theorem readRecord_ok {entries : List (List Char)} {last : List Char → Option ParsedHeader} {place : Nat × Nat}
    {value entry : List Char} {header : ParsedHeader}
    (read : readRecord entries names last place value = .ok (entry, header)) :
    entries[place.1]? = some entry ∧ parseRecordHeaderWithDefaults value (last entry) names = .ok header := by
  rw [readRecord] at read
  cases found : entries[place.1]? with
  | none => simp [found] at read
  | some name =>
    simp only [found] at read
    obtain ⟨parsed, text, same⟩ := map_eq_ok read
    obtain ⟨rfl, rfl⟩ := Prod.mk.inj same
    refine ⟨rfl, ?_⟩
    rw [toStr] at text
    split_ifs at text
    · exact text
    · cases text

theorem timed_eq_ok {Failure Item : Type} {sum : Option Nat} {rest : Option (Except Failure (List Item))}
    {item : Nat → Item} {items : List Item}
    (done : (sum.bind fun time => rest.map fun rest => rest.map fun rest => item time :: rest) = some (.ok items)) :
    ∃ time others, sum = some time ∧ rest = some (.ok others) ∧ item time :: others = items := by
  obtain ⟨time, known, mapped⟩ := Option.bind_eq_some_iff.mp done
  obtain ⟨result, found, whole⟩ := Option.map_eq_some_iff.mp mapped
  obtain ⟨others, rfl, same⟩ := map_eq_ok whole
  exact ⟨time, others, known, found, same⟩

theorem sorted_agree (build : Build) (entries : List (List Char)) (start : Nat) (headers : List ((Nat × Nat) × List Char))
    (last : List Char → Option ParsedHeader) (states : List Char → List LabelOp)
    (agrees : ∀ entry, Agrees (((last entry).map (·.labels)).getD []) (states entry))
    {records : List EntryRecordHeader} {updates : List EntryLabelUpdateHeader}
    (parsed : parseSorted build entries start names headers last = some (.ok records))
    (updated : updateSorted build entries start names headers last states = some (.ok updates)) :
    List.Forall₂ SameLabels records updates ↔ ∀ header ∈ headers, revivesLabel names header.2 = false := by
  induction headers generalizing last states records updates with
  | nil =>
    obtain rfl := Except.ok.inj (Option.some.inj parsed)
    obtain rfl := Except.ok.inj (Option.some.inj updated)
    simp
  | cons item headers ih =>
    obtain ⟨place, value⟩ := item
    rw [parseSorted] at parsed
    rw [updateSorted] at updated
    rcases read : readRecord entries names last place value with failure | ⟨entry, header⟩
    · simp [read] at parsed
    simp only [read] at parsed updated
    obtain ⟨timestamp, others, -, rest, rfl⟩ := timed_eq_ok parsed
    have labels := parsed_labels (readRecord_ok read).2
    have before := agrees entry
    -- the states after this record
    have after {state : List LabelOp} (next : Agrees header.labels state) (name : List Char) :
        Agrees (((Function.update last entry (some header) name).map (·.labels)).getD [])
          (Function.update states entry state name) := by
      by_cases same : name = entry
      · subst same
        simpa using next
      · simpa [Function.update_of_ne same] using agrees name
    rw [List.forall_mem_cons]
    cases part : labelPart value with
    | none =>
      simp only [part] at labels updated
      obtain ⟨_, more, -, tail, rfl⟩ := timed_eq_ok updated
      have next : Agrees header.labels (states entry) := labels ▸ before
      rw [List.forall₂_cons, ih _ _ (after next) rest tail]
      refine and_congr (iff_of_true (fun label => next.applied _ _ label) ?_) Iff.rfl
      simp [revivesLabel, part]
    | some rawLabels =>
      simp only [part] at labels updated
      obtain ⟨ops, known, result⟩ := labels
      simp only [parseLabelDelta, known, Except.map] at updated
      obtain ⟨_, more, -, tail, rfl⟩ := timed_eq_ok updated
      have revived : revivesLabel names value = revives ops := by simp [revivesLabel, part, known]
      rw [List.forall₂_cons, revived]
      by_cases plain : revives ops = false
      · have next : Agrees header.labels (mergeDelta (states entry) (ops.foldl splitOp ([], []))) :=
          result ▸ before.delta plain
        rw [ih _ _ (after next) rest tail]
        exact and_congr (iff_of_true (fun label => next.applied _ _ label) plain) Iff.rfl
      · refine iff_of_false (fun pair => ?_) fun both => plain both.1
        refine revived_differs (((last entry).map (·.labels)).getD []) (states entry) (by simpa using plain)
          fun label member => ?_
        have applied := (pair.1 label).mp (result ▸ member)
        obtain ⟨op, present, same⟩ := List.mem_filterMap.mp (List.mem_filter.mp applied).1
        obtain ⟨text, set_, rfl⟩ := Option.map_eq_some_iff.mp same
        rw [← set_]
        exact present

def placed (first second : (Nat × Nat) × List Char) : Prop :=
  first.1.1 < second.1.1 ∨ first.1.1 = second.1.1 ∧ first.1.2 ≤ second.1.2

instance : DecidableRel placed := fun _ _ => inferInstanceAs (Decidable (_ ∨ _))

theorem sortHeaders_inv {headers : Headers} {sorted : List ((Nat × Nat) × List Char)}
    (done : sortHeadersByEntryAndTime headers = .ok sorted) :
    ∃ items, sorted = items.insertionSort placed ∧
      List.Forall₂ (fun header item => parseBatchedHeaderName header.1 = .ok item.1 ∧ header.2 = item.2)
        (headers.filter fun header => isRecordName header.1) items := by
  obtain ⟨items, read, rfl⟩ := map_eq_ok (show Except.map _ _ = _ from done)
  refine ⟨items, rfl, ((mapM_eq_ok _ _ _).mp read).imp fun header item named => ?_⟩
  obtain ⟨place, parsed, rfl⟩ := map_eq_ok named
  exact ⟨parsed, rfl⟩

theorem forall_sorted {headers : Headers} {sorted : List ((Nat × Nat) × List Char)}
    (done : sortHeadersByEntryAndTime headers = .ok sorted) (holds : List Char → Prop) :
    (∀ item ∈ sorted, holds item.2) ↔ ∀ header ∈ headers, isRecordName header.1 = true → holds header.2 := by
  obtain ⟨items, rfl, pairs⟩ := sortHeaders_inv done
  have values : (headers.filter fun header => isRecordName header.1).map Prod.snd = items.map Prod.snd := by
    rw [← List.forall₂_eq_eq_eq, List.forall₂_map_left_iff, List.forall₂_map_right_iff]
    exact pairs.imp fun _ _ pair => pair.2
  simp only [(List.perm_insertionSort placed items).mem_iff]
  rw [← List.forall_mem_map (f := Prod.snd) (P := holds), ← values, List.forall_mem_map]
  simp only [List.mem_filter, and_imp]

/-- The updates are the labels exactly if no header removes a label and then sets it. -/
theorem updates_agree_iff (build : Build) (headers : HeaderMap) {records : List EntryRecordHeader}
    {updates : List EntryLabelUpdateHeader} (parsed : headers.parseBatchedHeaders build = some (.ok records))
    (updated : headers.parseBatchedUpdateHeaders build = some (.ok updates)) :
    List.Forall₂ SameLabels records updates ↔
      ∀ names, parseLabels headers.firsts = .ok names → ∀ header ∈ headers.firsts, isRecordName header.1 = true →
        revivesLabel names header.2 = false := by
  obtain ⟨entries, start, names, sorted, read, arranged, records⟩ := HeaderMap.parseWith_ok parsed
  obtain ⟨_, _, _, _, again, same, updates⟩ := HeaderMap.parseWith_ok updated
  cases read.symm.trans again
  cases arranged.symm.trans same
  rw [sorted_agree build entries start sorted (fun _ => none) (fun _ => []) (fun _ => ⟨List.nodup_nil, by simp⟩) records
    updates, forall_sorted arranged fun value => revivesLabel names value = false, (readFront_ok read).2.2]
  constructor
  · rintro plain _ ⟨⟩
    exact plain
  · exact fun plain => plain names rfl

def removingHeaders : HeaderMap where
  named := [(entriesHeader, "e".toList, []), (startTsHeader, "10".toList, []),
    ("x-reduct-0-0".toList, "3,text,a=1".toList, []), ("x-reduct-0-1".toList, "3,,a=,b=2".toList, [])]
  distinct := by decide +kernel

theorem updates_agree_removed : ∃ records updates, removingHeaders.parseBatchedHeaders .release = some (.ok records) ∧
    removingHeaders.parseBatchedUpdateHeaders .release = some (.ok updates) ∧ List.Forall₂ SameLabels records updates := by
  refine ⟨[⟨['e'], 10, 3, "text".toList, [(['a'], ['1'])]⟩, ⟨['e'], 11, 3, "text".toList, [(['b'], ['2'])]⟩],
    [⟨['e'], 10, [(['a'], ['1'])], []⟩, ⟨['e'], 11, [(['b'], ['2'])], [['a']]⟩], by decide +kernel, by decide +kernel, ?_⟩
  refine (updates_agree_iff .release removingHeaders (by decide +kernel) (by decide +kernel)).mpr ?_
  rintro names parsed
  have absent : parseLabels removingHeaders.firsts = .ok none := by decide +kernel
  obtain rfl := Except.ok.inj (absent.symm.trans parsed)
  decide +kernel

def revivingHeaders : HeaderMap where
  named := [(entriesHeader, "e".toList, []), (startTsHeader, "10".toList, []),
    ("x-reduct-0-0".toList, "3,text,a=,a=1".toList, [])]
  distinct := by decide +kernel

theorem updates_differ :
    ∃ record update, revivingHeaders.parseBatchedHeaders .release = some (.ok [record]) ∧
      revivingHeaders.parseBatchedUpdateHeaders .release = some (.ok [update]) ∧
      record.header.labels = [("a".toList, "1".toList)] ∧ update.update = [] ∧ update.remove = ["a".toList] :=
  ⟨⟨['e'], 10, 3, "text".toList, [(['a'], ['1'])]⟩, ⟨['e'], 10, [], [['a']]⟩, by decide +kernel⟩

end Agreement

end Updates

section Order

def placesOf (fields : Headers) : List (Nat × Nat) :=
  (fields.filter fun header => isRecordName header.1).filterMap fun header =>
    (parseBatchedHeaderName header.1).toOption

namespace HeaderMap

def fields (headers : HeaderMap) : Headers :=
  headers.named.flatMap fun header => (header.2.1 :: header.2.2).map fun value => (header.1, value)

def places (headers : HeaderMap) : List (Nat × Nat) := placesOf headers.fields

end HeaderMap

theorem parseSorted_records {build : Build} {entries : List (List Char)} {start : Nat} {names : Option (List (List Char))}
    {headers : List ((Nat × Nat) × List Char)} {last : List Char → Option ParsedHeader} {records : List EntryRecordHeader}
    (parsed : parseSorted build entries start names headers last = some (.ok records)) :
    List.Forall₂ (fun place record => entries[place.1]? = some record.entry ∧
      build.addU64 start place.2 = some record.timestamp) (headers.map Prod.fst) records := by
  induction headers generalizing last records with
  | nil =>
    obtain rfl := Except.ok.inj (Option.some.inj parsed)
    exact .nil
  | cons item headers ih =>
    obtain ⟨place, value⟩ := item
    rw [parseSorted] at parsed
    rcases read : readRecord entries names last place value with failure | ⟨entry, header⟩
    · simp [read] at parsed
    simp only [read] at parsed
    obtain ⟨timestamp, tail, sum, others, rfl⟩ := timed_eq_ok parsed
    exact .cons ⟨(readRecord_ok read).1, sum⟩ (ih others)

def Before (first second : Nat × Nat) : Prop := first.1 < second.1 ∨ first.1 = second.1 ∧ first.2 < second.2

structure InOrder (entries : List (List Char)) (start : Nat) (wanted : List (Nat × Nat)) (records : List EntryRecordHeader)
    (places : List (Nat × Nat)) : Prop where
  complete : places.Perm wanted
  exact : List.Forall₂ (fun place record => entries[place.1]? = some record.entry ∧ record.timestamp = start + place.2)
    places records
  increasing : ((places.map Prod.fst).zip (records.map (·.timestamp))).Pairwise Before

theorem InOrder.zip_eq {entries : List (List Char)} {start : Nat} {records : List EntryRecordHeader}
    {places : List (Nat × Nat)} (pairs : List.Forall₂ (fun place record => entries[place.1]? = some record.entry ∧
      record.timestamp = start + place.2) places records) :
    (places.map Prod.fst).zip (records.map (·.timestamp)) = places.map fun place => (place.1, start + place.2) := by
  induction pairs with
  | nil => rfl
  | cons pair _ ih => rw [List.map_cons, List.map_cons, List.zip_cons_cons, ih, pair.2, List.map_cons]

theorem InOrder.nodup {entries : List (List Char)} {start : Nat} {wanted places : List (Nat × Nat)}
    {records : List EntryRecordHeader} (order : InOrder entries start wanted records places) : wanted.Nodup := by
  refine order.complete.nodup_iff.mp ?_
  have increasing := order.increasing
  rw [InOrder.zip_eq order.exact, List.pairwise_map] at increasing
  refine increasing.imp ?_
  rintro first _ (less | ⟨_, less⟩) rfl
  · exact lt_irrefl _ less
  · exact lt_irrefl _ less

instance : Std.Total placed := ⟨fun first second => by simp only [placed]; omega⟩

instance : IsTrans _ placed := ⟨fun first second third => by simp only [placed]; omega⟩

theorem placesOf_values {name : List Char} {place : Nat × Nat} (record : isRecordName name = true)
    (parsed : parseBatchedHeaderName name = .ok place) (values : List (List Char)) :
    placesOf (values.map fun value => (name, value)) = List.replicate values.length place := by
  induction values with
  | nil => rfl
  | cons value values ih =>
    rw [placesOf, List.map_cons, List.filter_cons_of_pos (by exact record), List.filterMap_cons_some (b := place)
      (by simp [parsed, Except.toOption]), List.length_cons, List.replicate_succ, ← ih, placesOf]

theorem placesOf_firsts (named : List (List Char × List Char × List (List Char)))
    (read : ∀ header ∈ named, isRecordName header.1 = true → ∃ place, parseBatchedHeaderName header.1 = .ok place)
    (nodup : (placesOf (named.flatMap fun header => (header.2.1 :: header.2.2).map fun value => (header.1, value))).Nodup) :
    placesOf (named.flatMap fun header => (header.2.1 :: header.2.2).map fun value => (header.1, value)) =
      placesOf (named.map fun header => (header.1, header.2.1)) := by
  have append (front back : Headers) : placesOf (front ++ back) = placesOf front ++ placesOf back := by
    rw [placesOf, List.filter_append, List.filterMap_append]
    rfl
  induction named with
  | nil => rfl
  | cons header named ih =>
    rw [List.forall_mem_cons] at read
    rw [List.flatMap_cons, append] at nodup ⊢
    have split : placesOf ((header :: named).map fun header => (header.1, header.2.1)) =
        placesOf [(header.1, header.2.1)] ++ placesOf (named.map fun header => (header.1, header.2.1)) := append [_] _
    rw [ih read.2 (List.nodup_append.mp nodup).2.1, split, List.append_left_inj]
    by_cases record : isRecordName header.1 = true
    · obtain ⟨place, parsed⟩ := read.1 record
      have single := (List.nodup_append.mp nodup).1
      rw [placesOf_values record parsed, List.nodup_replicate] at single
      rw [placesOf_values record parsed, Nat.le_antisymm single (by simp)]
      exact (placesOf_values record parsed [header.2.1]).symm
    · simp [placesOf, record]

theorem toOption_pairs {Source Failure Target Item : Type} {read : Source → Except Failure Target} {value : Item → Target}
    {sources : List Source} {items : List Item}
    (pairs : List.Forall₂ (fun source item => read source = .ok (value item)) sources items) :
    sources.filterMap (fun source => (read source).toOption) = items.map value := by
  induction pairs with
  | nil => rfl
  | cons pair _ ih => rw [List.filterMap_cons_some (by rw [pair]; rfl), ih, List.map_cons]

/-- The records stand in order exactly if no two record headers have one place and no sum is too large. -/
theorem records_in_order (build : Build) (headers : HeaderMap) {records : List EntryRecordHeader}
    (parsed : headers.parseBatchedHeaders build = some (.ok records)) :
    ∃ entries start, parseEntries headers.firsts = .ok entries ∧ parseStartTimestamp headers.firsts = .ok start ∧
      ((∃ places, InOrder entries start headers.places records places) ↔
        headers.places.Nodup ∧ ∀ place ∈ headers.places, start + place.2 < 2 ^ 64) := by
  obtain ⟨entries, start, names, sorted, front, arranged, run⟩ := HeaderMap.parseWith_ok parsed
  obtain ⟨read, began, -⟩ := readFront_ok front
  have made := parseSorted_records run
  refine ⟨entries, start, read, began, ?_, ?_⟩
  · rintro ⟨places, order⟩
    refine ⟨order.nodup, fun place member => ?_⟩
    -- a sum is the time of a record
    obtain ⟨index, inside, rfl⟩ := List.mem_iff_getElem.mp (order.complete.mem_iff.mpr member)
    have bound := order.exact.length_eq ▸ inside
    have sum := (order.exact.get inside bound).2
    have longer : index < (sorted.map Prod.fst).length := made.length_eq ▸ bound
    have small := Build.addU64_lt (made.get longer bound).2
    simp only [List.get_eq_getElem] at sum small
    rwa [← sum]
  · rintro ⟨nodup, fits⟩
    obtain ⟨items, rfl, pairs⟩ := sortHeaders_inv arranged
    have readable : ∀ header ∈ headers.named, isRecordName header.1 = true →
        ∃ place, parseBatchedHeaderName header.1 = .ok place := by
      intro header member record
      have inside : (header.1, header.2.1) ∈ headers.firsts.filter fun header => isRecordName header.1 :=
        List.mem_filter.mpr ⟨List.mem_map.mpr ⟨header, member, rfl⟩, record⟩
      obtain ⟨index, bound, same⟩ := List.mem_iff_getElem.mp inside
      have pair := (pairs.get bound (pairs.length_eq ▸ bound)).1
      simp only [List.get_eq_getElem, same] at pair
      exact ⟨_, pair⟩
    have wanted : headers.places = items.map Prod.fst :=
      (placesOf_firsts headers.named readable nodup).trans (toOption_pairs (pairs.imp fun _ _ pair => pair.1))
    have order : ((items.insertionSort placed).map Prod.fst).Perm headers.places :=
      wanted ▸ (List.perm_insertionSort placed items).map Prod.fst
    have exact : List.Forall₂ (fun place record => entries[place.1]? = some record.entry ∧
        record.timestamp = start + place.2) ((items.insertionSort placed).map Prod.fst) records := by
      refine (List.forall₂_and_left (p := (· ∈ headers.places)) _ _).mpr ⟨fun place member => order.mem_iff.mp member, made⟩
        |>.imp fun place record pair => ⟨pair.2.1, ?_⟩
      exact (Option.some.inj ((build.addU64_small (fits place pair.1)).symm.trans pair.2.2)).symm
    refine ⟨_, order, exact, ?_⟩
    rw [InOrder.zip_eq exact, List.pairwise_map, List.pairwise_map]
    have differ := order.nodup_iff.mpr nodup
    rw [List.Nodup, List.pairwise_map] at differ
    refine (List.pairwise_insertionSort placed items).imp₂ (fun first second arranged differs => ?_) differ
    have different : first.1.1 ≠ second.1.1 ∨ first.1.2 ≠ second.1.2 := by
      by_contra same
      push Not at same
      exact differs (Prod.ext same.1 same.2)
    simp only [placed] at arranged
    simp only [Before]
    omega

def orderedHeaders : HeaderMap where
  named := [(entriesHeader, "e".toList, []), (startTsHeader, "10".toList, []),
    ("x-reduct-0-2".toList, "3,text".toList, []), ("x-reduct-0-1".toList, "4,text".toList, [])]
  distinct := by decide +kernel

theorem records_in_order_two : ∃ records places, orderedHeaders.parseBatchedHeaders .release = some (.ok records) ∧
    InOrder ["e".toList] 10 orderedHeaders.places records places := by
  have parsed : orderedHeaders.parseBatchedHeaders .release =
      some (.ok [⟨"e".toList, 11, 4, "text".toList, []⟩, ⟨"e".toList, 12, 3, "text".toList, []⟩]) := by decide +kernel
  obtain ⟨entries, start, named, began, order⟩ := records_in_order .release orderedHeaders parsed
  have known : parseEntries orderedHeaders.firsts = .ok ["e".toList] := by decide +kernel
  have first : parseStartTimestamp orderedHeaders.firsts = .ok 10 := by decide +kernel
  obtain rfl := Except.ok.inj (known.symm.trans named)
  obtain rfl := Except.ok.inj (first.symm.trans began)
  obtain ⟨places, inOrder⟩ := order.mpr (by decide +kernel)
  exact ⟨_, places, parsed, inOrder⟩

def disorderedHeaders (records : List (String × String × List String))
    (distinct : ([entriesHeader, startTsHeader] ++ records.map (·.1.toList)).Nodup) : HeaderMap where
  named := [(entriesHeader, "e".toList, []), (startTsHeader, "18446744073709551615".toList, [])] ++
    records.map fun record => (record.1.toList, record.2.1.toList, record.2.2.map String.toList)
  distinct := by simpa [Function.comp_def] using distinct

theorem records_disordered :
    (∃ records, (disorderedHeaders [("x-reduct-0-0", "3,text", []), ("x-reduct-0-1", "4,text", [])]
        (by decide +kernel)).parseBatchedHeaders .release = some (.ok records) ∧
      records.map (·.timestamp) = [18446744073709551615, 0]) ∧
    (disorderedHeaders [("x-reduct-0-0", "3,text", []), ("x-reduct-0-1", "4,text", [])]
      (by decide +kernel)).parseBatchedHeaders .debug = none ∧
    (∃ records, (disorderedHeaders [("x-reduct-0-0", "3,text", []), ("x-reduct-0-00", "4,text", [])]
        (by decide +kernel)).parseBatchedHeaders .release = some (.ok records) ∧
      records.map (·.timestamp) = [18446744073709551615, 18446744073709551615]) ∧
    ∃ records, (disorderedHeaders [("x-reduct-0-0", "3,text", ["4,text"])] (by decide +kernel)).parseBatchedHeaders .release =
      some (.ok records) ∧ records.length = 1 := by
  refine ⟨⟨[⟨"e".toList, 18446744073709551615, 3, "text".toList, []⟩, ⟨"e".toList, 0, 4, "text".toList, []⟩],
    by decide +kernel⟩, by decide +kernel,
    ⟨[⟨"e".toList, 18446744073709551615, 3, "text".toList, []⟩, ⟨"e".toList, 18446744073709551615, 4, "text".toList, []⟩],
      by decide +kernel⟩,
    ⟨[⟨"e".toList, 18446744073709551615, 3, "text".toList, []⟩], by decide +kernel⟩⟩

end Order

end ReductStore.DeltaHeader
