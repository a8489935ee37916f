import ReductStore.Replication.WriteBatch
import ReductStore.Shared.Text

set_option autoImplicit false

namespace ReductStore

structure RecordMeta where
  entryName : String
  timestamp : Nat
  labels : List Label
  contentType : String
  contentLength : Nat
  computedLabels : List Label
  deriving DecidableEq

def RecordHeader.text (header : RecordHeader) : String :=
  ",".intercalate (toString header.contentLength :: header.contentType :: header.labels)

namespace BatchHeader

open Text

def makeBatchHeader (record : RecordMeta) : String :=
  let computed := record.computedLabels.map fun label => { label with name := "@" ++ label.name }
  let labels := ((record.labels ++ computed).map BucketWrapper.labelHeader).insertionSort (· ≤ ·)
  ",".intercalate (toString record.contentLength :: record.contentType :: labels)

abbrev LabelText := List Char × List Char

structure ParsedHeader where
  contentLength : Nat
  contentType : List Char
  labels : List LabelText
  deriving DecidableEq

def insertLabel (labels : List LabelText) (label : LabelText) : List LabelText :=
  labels.filter (·.1 ≠ label.1) ++ [label]

theorem quoted_shorter {text key value front rest : List Char} (split : splitOnce '=' text = some (key, '"' :: value))
    (ended : splitOnce '"' value = some (front, rest)) : (trim (rest.dropWhile (· = ','))).length < text.length := by
  have whole := splitOnce_length split
  have part := splitOnce_length ended
  have trimmed := length_trim_le (rest.dropWhile (· = ','))
  have dropped : (rest.dropWhile (· = ',')).length ≤ rest.length := (List.dropWhile_suffix _).length_le
  rw [List.length_cons] at whole
  omega

theorem unquoted_shorter {text key value front rest : List Char} (split : splitOnce '=' text = some (key, value))
    (more : splitOnce ',' value = some (front, rest)) : (trim rest).length < text.length := by
  have whole := splitOnce_length split
  have part := splitOnce_length more
  have trimmed := length_trim_le rest
  omega

def parseLabels (text : List Char) (labels : List LabelText) : Except ReductError (List LabelText) :=
  match split : splitOnce '=' text with
  | none => .ok labels
  | some (key, '"' :: value) =>
    match ended : splitOnce '"' value with
    | none => .error (unprocessableEntity "Invalid batched header")
    | some (value, rest) =>
      have _shorter := quoted_shorter split ended
      parseLabels (trim (rest.dropWhile (· = ','))) (insertLabel labels (trim key, trim value))
  | some (key, value) =>
    match more : splitOnce ',' value with
    | some (value, rest) =>
      have _shorter := unquoted_shorter split more
      parseLabels (trim rest) (insertLabel labels (trim key, trim value))
    | none => .ok (insertLabel labels (trim key, trim value))
termination_by text.length

def octetStream : List Char := "application/octet-stream".toList

def parseBatchedHeader (header : List Char) : Except ReductError ParsedHeader :=
  match splitOnce ',' header with
  | none => .error (unprocessableEntity "Invalid batched header")
  | some (contentLength, rest) =>
    match parseUnsigned (2 ^ 64) (trim contentLength) with
    | none => .error (unprocessableEntity "Invalid content length")
    | some contentLength => do
      let (contentType, rest) := (splitOnce ',' rest).getD (rest, octetStream)
      let contentType := if contentType = [] then octetStream else trim contentType
      let labels ← parseLabels rest []
      .ok { contentLength, contentType, labels }

section Loop

variable {text key value rest : List Char} {labels : List LabelText}

theorem parseLabels_none (clear : '=' ∉ text) : parseLabels text labels = .ok labels := by
  rw [parseLabels]
  split
  next => rfl
  next found => simp [splitOnce_none clear] at found
  next found => simp [splitOnce_none clear] at found

theorem parseLabels_quoted (clear : '=' ∉ key) (closed : '"' ∉ value) :
    parseLabels (key ++ '=' :: '"' :: (value ++ '"' :: rest)) labels =
      parseLabels (trim (rest.dropWhile (· = ','))) (insertLabel labels (trim key, trim value)) := by
  rw [parseLabels]
  split
  next missing => simp [splitOnce_append clear] at missing
  next found =>
    rw [splitOnce_append clear, Option.some.injEq, Prod.mk.injEq, List.cons.injEq] at found
    obtain ⟨rfl, -, rfl⟩ := found
    split
    next missing => simp [splitOnce_append closed] at missing
    next ended =>
      rw [splitOnce_append closed, Option.some.injEq, Prod.mk.injEq] at ended
      obtain ⟨rfl, rfl⟩ := ended
      rfl
  next plain found =>
    rw [splitOnce_append clear, Option.some.injEq, Prod.mk.injEq] at found
    exact absurd found.2.symm (plain _)

theorem parseLabels_unquoted (clear : '=' ∉ key) (open_ : value.head? ≠ some '"') (single : ',' ∉ value) :
    parseLabels (key ++ '=' :: (value ++ ',' :: rest)) labels =
      parseLabels (trim rest) (insertLabel labels (trim key, trim value)) := by
  rw [parseLabels]
  split
  next missing => simp [splitOnce_append clear] at missing
  next found =>
    rw [splitOnce_append clear, Option.some.injEq, Prod.mk.injEq] at found
    cases value <;> simp_all
  next found =>
    rw [splitOnce_append clear, Option.some.injEq, Prod.mk.injEq] at found
    obtain ⟨rfl, rfl⟩ := found
    split
    next more =>
      rw [splitOnce_append single, Option.some.injEq, Prod.mk.injEq] at more
      obtain ⟨rfl, rfl⟩ := more
      rfl
    next missing => simp [splitOnce_append single] at missing

theorem parseLabels_last (clear : '=' ∉ key) (open_ : value.head? ≠ some '"') (single : ',' ∉ value) :
    parseLabels (key ++ '=' :: value) labels = .ok (insertLabel labels (trim key, trim value)) := by
  rw [parseLabels]
  split
  next missing => simp [splitOnce_append clear] at missing
  next found =>
    rw [splitOnce_append clear, Option.some.injEq, Prod.mk.injEq] at found
    simp [found.2] at open_
  next found =>
    rw [splitOnce_append clear, Option.some.injEq, Prod.mk.injEq] at found
    obtain ⟨rfl, rfl⟩ := found
    split
    next more => simp [splitOnce_none single] at more
    next => rfl

structure Taken (label : LabelText) : Prop where
  name : trim label.1 = label.1
  equals : '=' ∉ label.1
  value : trim label.2 = label.2
  quotes : ',' ∈ label.2 → '"' ∉ label.2

def blanks (label : LabelText) : Nat :=
  label.1.countP isWhitespace + label.2.countP isWhitespace + if label.2.head? = some '"' then 1 else 0

theorem countP_trim (text : List Char) : (trim text).countP isWhitespace ≤ text.countP isWhitespace :=
  ( trim_infix text).sublist.countP_le

theorem blanks_insertLabel (labels : List LabelText) (label : LabelText) :
    ((insertLabel labels label).map blanks).sum ≤ (labels.map blanks).sum + blanks label := by
  have fewer : ((labels.filter (·.1 ≠ label.1)).map blanks).sum ≤ (labels.map blanks).sum :=
    (List.filter_sublist.map blanks).sum_le_sum fun _ _ => Nat.zero_le _
  simp only [insertLabel, List.map_append, List.sum_append, List.map_cons, List.map_nil, List.sum_cons, List.sum_nil]
  omega

theorem nodup_insertLabel (nodup : (labels.map Prod.fst).Nodup) (label : LabelText) :
    ((insertLabel labels label).map Prod.fst).Nodup := by
  rw [insertLabel, List.map_append, List.map_singleton, ← List.concat_eq_append, List.nodup_concat]
  refine ⟨fun member => ?_, nodup.sublist (List.filter_sublist.map Prod.fst)⟩
  obtain ⟨other, kept, same⟩ := List.mem_map.mp member
  simpa [same] using (List.mem_filter.mp kept).2

theorem blanks_trim {text : List Char} (plain : text.head? ≠ some '"') :
    (trim text).countP isWhitespace + (if (trim text).head? = some '"' then 1 else 0) ≤ text.countP isWhitespace := by
  cases text with
  | nil => simp [trim, trimStart, trimEnd]
  | cons char text =>
    by_cases blank : isWhitespace char = true
    · have same : trim (char :: text) = trim text := by simp [trim, trimStart, blank]
      have fewer := countP_trim text
      rw [same, List.countP_cons_of_pos blank]
      split <;> omega
    · have different : (trim (char :: text)).head? ≠ some '"' := by
        intro quote
        obtain ⟨rest, whole⟩ : trim (char :: text) <+: char :: text := by
          have front : trim (char :: text) <+: trimStart (char :: text) := List.rdropWhile_prefix _ _
          simpa [trimStart, blank] using front
        rw [← whole, List.head?_append, quote] at plain
        exact plain rfl
      rw [if_neg different]
      exact countP_trim _

structure Collected (text : List Char) (labels result : List LabelText) : Prop where
  names : (labels.map Prod.fst).Nodup → (result.map Prod.fst).Nodup
  taken : (∀ label ∈ labels, Taken label) → ∀ label ∈ result, Taken label
  blanks : (result.map blanks).sum ≤ (labels.map blanks).sum + text.countP isWhitespace

theorem Collected.insert {text after : List Char} {labels result : List LabelText} {label : LabelText}
    (rest : Collected after (insertLabel labels label) result) (taken : Taken label)
    (covered : BatchHeader.blanks label + after.countP isWhitespace ≤ text.countP isWhitespace) :
    Collected text labels result := by
  refine ⟨fun nodup => rest.names (nodup_insertLabel nodup label), fun all => rest.taken ?_, ?_⟩
  · intro other member
    rcases List.mem_append.mp member with old | new
    · exact all other (List.mem_of_mem_filter old)
    · rw [List.mem_singleton.mp new]
      exact taken
  · have here := blanks_insertLabel labels label
    have later := rest.blanks
    omega

theorem Collected.done (labels : List LabelText) (text : List Char) : Collected text labels labels :=
  ⟨id, id, Nat.le_add_right _ _⟩

theorem parseLabels_collected {result : List LabelText} (parsed : parseLabels text labels = .ok result) :
    Collected text labels result := by
  fun_induction parseLabels text labels with
  | case1 text labels split =>
    obtain rfl := Except.ok.inj parsed
    exact .done labels text
  | case2 => cases parsed
  | case3 text labels key value split front rest ended _ ih =>
    obtain ⟨rfl, clear⟩ := splitOnce_some split
    obtain ⟨rfl, closed⟩ := splitOnce_some ended
    have unquoted : '"' ∉ trim front := fun member => closed (( trim_infix front).subset member)
    refine (ih parsed).insert ⟨trim_trim key, ?_, trim_trim front, fun _ => unquoted⟩ ?_
    · exact fun member => clear (( trim_infix key).subset member)
    · have start : (trim front).head? ≠ some '"' := fun quote => unquoted (List.mem_of_mem_head? quote)
      have name := countP_trim key
      have content := countP_trim front
      have remainder := countP_trim (rest.dropWhile (· = ','))
      have dropped : (rest.dropWhile (· = ',')).countP isWhitespace ≤ rest.countP isWhitespace :=
        (List.dropWhile_suffix _).sublist.countP_le
      simp only [blanks, if_neg start, List.countP_append, List.countP_cons]
      omega
  | case4 text labels key value plain split front rest more _ ih =>
    obtain ⟨rfl, clear⟩ := splitOnce_some split
    obtain ⟨rfl, single⟩ := splitOnce_some more
    have lone : ',' ∉ trim front := fun member => single (( trim_infix front).subset member)
    refine (ih parsed).insert ⟨trim_trim key, ?_, trim_trim front, fun member => absurd member lone⟩ ?_
    · exact fun member => clear (( trim_infix key).subset member)
    · have start : front.head? ≠ some '"' := by
        cases front with
        | nil => simp
        | cons char front => exact fun quote => plain _ (by rw [Option.some.inj quote]; rfl)
      have name := countP_trim key
      have content := blanks_trim start
      have remainder := countP_trim rest
      simp only [blanks, List.countP_append, List.countP_cons]
      omega
  | case5 text labels key value plain split missing =>
    obtain ⟨rfl, clear⟩ := splitOnce_some split
    obtain rfl := Except.ok.inj parsed
    have lone : ',' ∉ trim value := fun member => splitOnce_eq_none missing (( trim_infix value).subset member)
    refine (Collected.done _ []).insert ⟨trim_trim key, ?_, trim_trim value, fun member => absurd member lone⟩ ?_
    · exact fun member => clear (( trim_infix key).subset member)
    · have start : value.head? ≠ some '"' := by
        cases value with
        | nil => simp
        | cons char value => exact fun quote => plain _ (by rw [Option.some.inj quote])
      have name := countP_trim key
      have content := blanks_trim start
      simp only [blanks, List.countP_append, List.countP_cons, List.countP_nil]
      omega

end Loop

section Labels

def valueText (value : List Char) : List Char := if ',' ∈ value then '"' :: (value ++ ['"']) else value

def labelText (label : LabelText) : List Char := label.1 ++ '=' :: valueText label.2

def joined (labels : List LabelText) : List Char := [','].intercalate (labels.map labelText)

structure Plain (label : LabelText) : Prop extends Taken label where
  opening : label.2.head? ≠ some '"'

def stripped (label : LabelText) : LabelText := (trim (label.1.dropWhile (· = ',')), label.2)

def adjusted : Bool → List LabelText → List LabelText
  | _, [] => []
  | behindQuotes, label :: labels =>
    (if behindQuotes then stripped label else label) :: adjusted (decide (',' ∈ label.2)) labels

variable {label next : LabelText} {labels : List LabelText}

theorem joined_cons (label next : LabelText) (labels : List LabelText) :
    joined (label :: next :: labels) = labelText label ++ ',' :: joined (next :: labels) := by
  simp [joined, List.intercalate_cons_cons]

theorem joined_start (label : LabelText) (labels : List LabelText) :
    ∃ rest, ∀ name, joined ((name, label.2) :: labels) = name ++ '=' :: rest := by
  cases labels with
  | nil => exact ⟨valueText label.2, fun name => by simp [joined, labelText]⟩
  | cons next labels =>
    refine ⟨valueText label.2 ++ ',' :: joined (next :: labels), fun name => ?_⟩
    rw [joined_cons, labelText, List.append_assoc, List.cons_append]

theorem head_name (name : trim label.1 = label.1) (char : Char) (member : char ∈ label.1.head?) :
    isWhitespace char = false := by
  rw [← name] at member
  exact head_trim char member

theorem getLast_text {text : List Char} (trimmed : trim text = text) (char : Char) (member : char ∈ text.getLast?) :
    isWhitespace char = false := by
  rw [← trimmed] at member
  exact last_trim char member

theorem last_append {front back : List Char} {middle char : Char}
    (member : char ∈ (front ++ middle :: back).getLast?) : char ∈ back.getLast? ∨ char = middle := by
  rw [List.getLast?_append, List.getLast?_cons, Option.some_or, Option.mem_def, Option.some.injEq] at member
  cases last : back.getLast? with
  | none => exact .inr (by simpa [last] using member.symm)
  | some final => exact .inl (by simpa [last] using member)

theorem last_labelText (value : trim label.2 = label.2) (char : Char) (member : char ∈ (labelText label).getLast?) :
    isWhitespace char = false := by
  rw [labelText] at member
  rcases last_append member with inside | rfl
  · unfold valueText at inside
    split at inside
    · rw [← List.cons_append] at inside
      rcases last_append inside with nothing | rfl
      · cases nothing
      · rfl
    · exact getLast_text value char inside
  · rfl

theorem last_joined (values : ∀ label ∈ labels, trim label.2 = label.2) (char : Char)
    (member : char ∈ (joined labels).getLast?) : isWhitespace char = false := by
  induction labels with
  | nil => simp [joined] at member
  | cons label labels ih =>
    cases labels with
    | nil => exact last_labelText (values label List.mem_cons_self) char (by simpa [joined] using member)
    | cons next labels =>
      rw [joined_cons] at member
      rcases last_append member with inside | rfl
      · exact ih (fun other present => values other (List.mem_cons_of_mem _ present)) inside
      · rfl

theorem dropWhile_append_stop {drops : Char → Bool} {stop : Char} (stops : drops stop = false) (front back : List Char) :
    (front ++ stop :: back).dropWhile drops = front.dropWhile drops ++ stop :: back := by
  induction front with
  | nil => simp [stops]
  | cons char front ih =>
    rw [List.cons_append, List.dropWhile_cons, List.dropWhile_cons, ih]
    split <;> rfl

theorem trim_joined (taken : ∀ label ∈ labels, Taken label) : trim (joined labels) = joined labels := by
  refine trim_eq_self (fun char member => ?_) (last_joined fun label present => (taken label present).value)
  cases labels with
  | nil => simp [joined] at member
  | cons label labels =>
    obtain ⟨rest, text⟩ := joined_start label labels
    rw [text label.1, List.head?_append] at member
    cases name : label.1.head? with
    | none =>
      obtain rfl : '=' = char := by simpa [name] using member
      rfl
    | some first =>
      obtain rfl : first = char := by simpa [name] using member
      exact head_name (taken label List.mem_cons_self).name first name

theorem trimStart_suffix {text : List Char} (trimmed : trim text = text) {back : List Char} (behind : back <:+ text) :
    trim back = trimStart back := by
  refine rdropWhile_eq_self fun char member => getLast_text trimmed char ?_
  have ends : trimStart back <:+ text := (List.dropWhile_suffix isWhitespace).trans behind
  obtain ⟨front, whole⟩ := ends
  rw [← whole, List.getLast?_append, Option.mem_def.mp member]
  rfl

theorem trim_dropCommas (taken : ∀ other ∈ label :: labels, Taken other) :
    trim ((joined (label :: labels)).dropWhile (· = ',')) = joined (stripped label :: labels) := by
  obtain ⟨rest, text⟩ := joined_start label labels
  have final : ∀ char ∈ ('=' :: rest).getLast?, isWhitespace char = false := fun char member => by
    refine last_joined (fun other present => (taken other present).value) char ?_
    rw [text label.1, List.getLast?_append, Option.mem_def.mp member]
    rfl
  rw [stripped, text, text, dropWhile_append_stop (by decide), trimStart_suffix (taken label List.mem_cons_self).name (List.dropWhile_suffix _), trim, trimStart,
    dropWhile_append_stop (by decide)]
  refine rdropWhile_eq_self fun char member => ?_
  rcases last_append member with inside | rfl
  · refine final char ?_
    rw [List.getLast?_cons, Option.mem_def.mp inside]
    rfl
  · rfl

theorem Plain.stripped (plain : Plain label) : Plain (stripped label) := by
  have fewer : (BatchHeader.stripped label).1 ⊆ label.1 :=
    (( trim_infix _).sublist.trans (List.dropWhile_suffix _).sublist).subset
  exact ⟨⟨trim_trim _, fun member => plain.equals (fewer member), plain.value, plain.quotes⟩, plain.opening⟩

theorem parseLabels_joined (count : Nat) (labels : List LabelText) (short : labels.length = count)
    (plain : ∀ label ∈ labels, Plain label) (start : List LabelText) :
    parseLabels (joined labels) start = .ok ((adjusted false labels).foldl insertLabel start) := by
  induction count using Nat.strong_induction_on generalizing labels start with
  | h count ih =>
    match labels with
    | [] => exact parseLabels_none (by simp [joined])
    | [label] =>
      obtain ⟨⟨name, equals, value, quotes⟩, opening⟩ := plain label List.mem_cons_self
      by_cases quoted : ',' ∈ label.2
      · have text : joined [label] = label.1 ++ '=' :: '"' :: (label.2 ++ '"' :: []) := by
          simp [joined, labelText, valueText, quoted]
        rw [text, parseLabels_quoted equals (quotes quoted), name, value]
        exact parseLabels_none (by simp [trim, trimStart, trimEnd])
      · have text : joined [label] = label.1 ++ '=' :: label.2 := by simp [joined, labelText, valueText, quoted]
        rw [text, parseLabels_last equals opening quoted, name, value]
        rfl
    | label :: next :: rest =>
      obtain ⟨⟨name, equals, value, quotes⟩, opening⟩ := plain label List.mem_cons_self
      have others : ∀ other ∈ next :: rest, Plain other := fun other member => plain other (List.mem_cons_of_mem _ member)
      have taken : ∀ other ∈ next :: rest, Taken other := fun other member => (others other member).toTaken
      by_cases quoted : ',' ∈ label.2
      · have text : joined (label :: next :: rest) =
            label.1 ++ '=' :: '"' :: (label.2 ++ '"' :: (',' :: joined (next :: rest))) := by
          simp [joined_cons, labelText, valueText, quoted]
        rw [text, parseLabels_quoted equals (quotes quoted), name, value, List.dropWhile_cons_of_pos (by decide),
          trim_dropCommas taken]
        rw [ih (rest.length + 1) (by simp at short; omega) (BatchHeader.stripped next :: rest) (by simp) ?_]
        · simp only [adjusted, quoted, decide_true, Bool.false_eq_true, if_false, if_true, List.foldl_cons]
          rfl
        · intro other member
          rcases List.mem_cons.mp member with rfl | later
          · exact (others next List.mem_cons_self).stripped
          · exact others other (List.mem_cons_of_mem _ later)
      · have text : joined (label :: next :: rest) = label.1 ++ '=' :: (label.2 ++ ',' :: joined (next :: rest)) := by
          simp [joined_cons, labelText, valueText, quoted]
        rw [text, parseLabels_unquoted equals opening quoted, name, value, trim_joined taken,
          ih (rest.length + 1) (by simp at short; omega) (next :: rest) (by simp) others]
        simp [adjusted, quoted]

def Separated (labels : List LabelText) : Prop :=
  labels.IsChain fun label next => ',' ∈ label.2 → next.1.head? ≠ some ','

structure Legible (labels : List LabelText) : Prop where
  names : (labels.map Prod.fst).Nodup
  plain : ∀ label ∈ labels, Plain label
  separated : Separated labels

def nameLength (labels : List LabelText) : Nat := (labels.map fun label => label.1.length).sum

theorem length_stripped (label : LabelText) : (stripped label).1.length ≤ label.1.length :=
  (length_trim_le _).trans (List.dropWhile_suffix _).length_le

theorem stripped_shorter (comma : label.1.head? = some ',') : (stripped label).1.length < label.1.length := by
  obtain ⟨name, value⟩ := label
  cases name with
  | nil => cases comma
  | cons char name =>
    obtain rfl := Option.some.inj comma
    have trimmed := length_trim_le (name.dropWhile (· = ','))
    have dropped : (name.dropWhile (· = ',')).length ≤ name.length := (List.dropWhile_suffix _).length_le
    simp [stripped]
    omega

theorem nameLength_adjusted (behindQuotes : Bool) (labels : List LabelText) :
    nameLength (adjusted behindQuotes labels) ≤ nameLength labels := by
  induction labels generalizing behindQuotes with
  | nil => exact le_rfl
  | cons label labels ih =>
    have later := ih (decide (',' ∈ label.2))
    have here := length_stripped label
    simp only [nameLength, adjusted, List.map_cons, List.sum_cons] at later ⊢
    split <;> omega

theorem separated_of_length (behindQuotes : Bool)
    (same : nameLength (adjusted behindQuotes labels) = nameLength labels) :
    (behindQuotes = true → ∀ label ∈ labels.head?, label.1.head? ≠ some ',') ∧ Separated labels := by
  induction labels generalizing behindQuotes with
  | nil => exact ⟨fun _ label absent => absurd absent (by simp), .nil⟩
  | cons label labels ih =>
    have fewer := nameLength_adjusted (decide (',' ∈ label.2)) labels
    have shorter := length_stripped label
    simp only [nameLength, adjusted, List.map_cons, List.sum_cons] at same fewer
    have rest : nameLength (adjusted (decide (',' ∈ label.2)) labels) = nameLength labels := by
      simp only [nameLength]
      split at same <;> omega
    obtain ⟨first, separated⟩ := ih _ rest
    refine ⟨fun behind other member comma => ?_, List.isChain_cons.mpr ⟨fun next member quoted => ?_, separated⟩⟩
    · obtain rfl := Option.some.inj member
      have lost := stripped_shorter comma
      rw [if_pos behind] at same
      omega
    · exact first (decide_eq_true quoted) next member

theorem stripped_eq (name : trim label.1 = label.1) (plain : label.1.head? ≠ some ',') : stripped label = label := by
  have kept : label.1.dropWhile (· = ',') = label.1 := dropWhile_eq_self fun char member =>
    decide_eq_false fun comma => plain (comma ▸ member)
  rw [stripped, kept, name]

theorem adjusted_separated (behindQuotes : Bool) (separated : Separated labels)
    (first : behindQuotes = true → ∀ label ∈ labels.head?, label.1.head? ≠ some ',')
    (plain : ∀ label ∈ labels, Plain label) : adjusted behindQuotes labels = labels := by
  induction labels generalizing behindQuotes with
  | nil => rfl
  | cons label labels ih =>
    obtain ⟨next, later⟩ := List.isChain_cons.mp separated
    have rest := ih (decide (',' ∈ label.2)) later (fun quoted other member => next other member (of_decide_eq_true quoted))
      fun other member => plain other (List.mem_cons_of_mem _ member)
    rw [adjusted, rest]
    split
    next behind => rw [stripped_eq (plain label List.mem_cons_self).name (first behind label rfl)]
    next => rfl

theorem foldl_insertLabel (labels start : List LabelText) (nodup : ((start ++ labels).map Prod.fst).Nodup) :
    labels.foldl insertLabel start = start ++ labels := by
  induction labels generalizing start with
  | nil => simp
  | cons label labels ih =>
    have new : insertLabel start label = start ++ [label] := by
      rw [insertLabel, List.filter_eq_self.mpr]
      intro other member
      rw [List.map_append, List.map_cons, List.nodup_append] at nodup
      exact decide_eq_true (nodup.2.2 _ (List.mem_map_of_mem member) _ List.mem_cons_self)
    rw [List.foldl_cons, new, ih _ (by simpa using nodup), List.append_assoc, List.singleton_append]

theorem nameLength_foldl (labels start : List LabelText) :
    nameLength (labels.foldl insertLabel start) ≤ nameLength start + nameLength labels := by
  induction labels generalizing start with
  | nil => simp [nameLength]
  | cons label labels ih =>
    have later := ih (insertLabel start label)
    have fewer : ((start.filter (·.1 ≠ label.1)).map fun label => label.1.length).sum ≤
        (start.map fun label => label.1.length).sum :=
      (List.filter_sublist.map _).sum_le_sum fun _ _ => Nat.zero_le _
    simp only [nameLength, insertLabel, List.map_append, List.sum_append, List.map_cons, List.map_nil, List.sum_cons,
      List.sum_nil, List.foldl_cons] at later ⊢
    omega

theorem whitespace_joined (labels : List LabelText) :
    (joined labels).countP isWhitespace =
      (labels.map fun label => label.1.countP isWhitespace + label.2.countP isWhitespace).sum := by
  have single : ∀ label : LabelText, (labelText label).countP isWhitespace =
      label.1.countP isWhitespace + label.2.countP isWhitespace := by
    intro label
    have equals : isWhitespace '=' = false := rfl
    have quote : isWhitespace '"' = false := rfl
    unfold labelText valueText
    split <;> simp [List.countP_append, equals, quote]
  induction labels with
  | nil => rfl
  | cons label labels ih =>
    cases labels with
    | nil => simp [joined, single]
    | cons next labels =>
      have comma : isWhitespace ',' = false := rfl
      rw [joined_cons, List.countP_append, List.countP_cons_of_neg (by simp [comma]), ih, single]
      rfl

theorem no_opening (counted : (labels.map blanks).sum ≤
    (labels.map fun label => label.1.countP isWhitespace + label.2.countP isWhitespace).sum) :
    ∀ label ∈ labels, label.2.head? ≠ some '"' := by
  induction labels with
  | nil => simp
  | cons label labels ih =>
    have rest : (labels.map fun label => label.1.countP isWhitespace + label.2.countP isWhitespace).sum ≤
        (labels.map blanks).sum := List.sum_le_sum fun label _ => Nat.le_add_right _ _
    simp only [List.map_cons, List.sum_cons, blanks] at counted
    intro other member
    rcases List.mem_cons.mp member with rfl | later
    · intro quote
      rw [if_pos quote] at counted
      omega
    · exact ih (by omega) other later

theorem labels_read_iff (labels : List LabelText) :
    (∃ result, parseLabels (joined labels) [] = .ok result ∧ result.Perm labels) ↔ Legible labels := by
  constructor
  · rintro ⟨result, parsed, same⟩
    have collected := parseLabels_collected parsed
    have names : (labels.map Prod.fst).Nodup := (same.map Prod.fst).nodup_iff.mp (collected.names List.nodup_nil)
    have taken : ∀ label ∈ labels, Taken label := fun label member =>
      collected.taken (fun _ absent => absurd absent List.not_mem_nil) label (same.mem_iff.mpr member)
    have counted := collected.blanks
    rw [(same.map blanks).sum_eq, whitespace_joined, List.map_nil, List.sum_nil, Nat.zero_add] at counted
    have plain : ∀ label ∈ labels, Plain label := fun label member =>
      ⟨taken label member, no_opening counted label member⟩
    refine ⟨names, plain, (separated_of_length false (le_antisymm (nameLength_adjusted false labels) ?_)).2⟩
    rw [parseLabels_joined labels.length labels rfl plain] at parsed
    obtain rfl := Except.ok.inj parsed
    have kept : nameLength labels = nameLength ((adjusted false labels).foldl insertLabel []) :=
      ((same.map fun label : LabelText => label.1.length).sum_eq).symm
    rw [kept]
    simpa [nameLength] using nameLength_foldl (adjusted false labels) []
  · rintro ⟨names, plain, separated⟩
    refine ⟨labels, ?_, .refl labels⟩
    rw [parseLabels_joined labels.length labels rfl plain, adjusted_separated false separated (by simp) plain,
      foldl_insertLabel labels [] names, List.nil_append]

end Labels

section Header

variable {contentType : List Char} {labels : List LabelText}

def headerText (contentLength : Nat) (contentType : List Char) (labels : List LabelText) : List Char :=
  [','].intercalate (Nat.toDigits 10 contentLength :: contentType :: labels.map labelText)

def bodyText (contentType : List Char) : List LabelText → List Char
  | [] => contentType
  | label :: labels => contentType ++ ',' :: joined (label :: labels)

theorem headerText_body (contentLength : Nat) (contentType : List Char) (labels : List LabelText) :
    headerText contentLength contentType labels = Nat.toDigits 10 contentLength ++ ',' :: bodyText contentType labels := by
  cases labels with
  | nil => simp [headerText, bodyText, List.intercalate_cons_cons]
  | cons label labels => simp [headerText, bodyText, joined, List.intercalate_cons_cons]

theorem digit_plain {char : Char} (digit : char.isDigit = true) : isWhitespace char = false ∧ char ≠ ',' := by
  have bounds : 48 ≤ char.toNat ∧ char.toNat ≤ 57 := by
    simp only [Char.isDigit, Bool.and_eq_true, decide_eq_true_eq, ge_iff_le, UInt32.le_iff_toNat_le] at digit
    exact digit
  constructor
  · obtain ⟨lower, upper⟩ := bounds
    unfold isWhitespace
    generalize char.toNat = code at lower upper
    interval_cases code <;> rfl
  · rintro rfl
    exact absurd bounds (by decide)

theorem splitOnce_header (contentLength : Nat) (contentType : List Char) (labels : List LabelText) :
    splitOnce ',' (headerText contentLength contentType labels) =
      some (Nat.toDigits 10 contentLength, bodyText contentType labels) := by
  rw [headerText_body]
  exact splitOnce_append fun member => (digit_plain (isDigit_of_toDigits contentLength member)).2 rfl

theorem trim_toDigits (number : Nat) : trim (Nat.toDigits 10 number) = Nat.toDigits 10 number :=
  trim_eq_self (fun _ member => (digit_plain (isDigit_of_toDigits number (List.mem_of_mem_head? member))).1)
    fun _ member => (digit_plain (isDigit_of_toDigits number (List.mem_of_mem_getLast? member))).1

theorem body_split (single : ',' ∉ contentType) (labels : List LabelText) :
    ∃ text, (splitOnce ',' (bodyText contentType labels)).getD (bodyText contentType labels, octetStream) =
        (contentType, text) ∧
      ((∃ result, parseLabels text [] = .ok result ∧ result.Perm labels) ↔ Legible labels) := by
  cases labels with
  | nil =>
    refine ⟨octetStream, by simp [bodyText, splitOnce_none single], ?_⟩
    have nothing : parseLabels octetStream [] = .ok [] := parseLabels_none (by decide)
    refine ⟨fun _ => ⟨List.nodup_nil, by simp, .nil⟩, fun _ => ⟨[], nothing, .refl _⟩⟩
  | cons label labels =>
    exact ⟨joined (label :: labels), by simp [bodyText, splitOnce_append single], labels_read_iff _⟩

theorem header_read_iff {contentLength : Nat} (small : contentLength < 2 ^ 64) :
    (∃ header, parseBatchedHeader (headerText contentLength contentType labels) = .ok header ∧
        header.contentLength = contentLength ∧ header.contentType = contentType ∧ header.labels.Perm labels) ↔
      (contentType ≠ [] ∧ trim contentType = contentType ∧ ',' ∉ contentType) ∧ Legible labels := by
  have number : parseUnsigned (2 ^ 64) (trim (Nat.toDigits 10 contentLength)) = some contentLength := by
    rw [trim_toDigits, parseUnsigned_toDigits small]
  simp only [parseBatchedHeader, splitOnce_header, number]
  by_cases comma : ',' ∈ contentType
  · refine ⟨?_, fun legible => absurd comma legible.1.2.2⟩
    rintro ⟨header, parsed, -, same, -⟩
    -- the content type that is read has no comma
    obtain ⟨front, back, whole, clear⟩ := List.eq_append_cons_of_mem comma
    obtain ⟨text, split⟩ : ∃ text, (splitOnce ',' (bodyText contentType labels)).getD
        (bodyText contentType labels, octetStream) = (front, text) := by
      cases labels <;> simp [bodyText, whole, splitOnce_append clear]
    rw [split] at parsed
    cases read : parseLabels text [] with
    | error failure => simp [read, bind, Except.bind] at parsed
    | ok result =>
      have type : header.contentType = if front = [] then octetStream else trim front := by
        rw [read] at parsed
        rw [← Except.ok.inj parsed]
      rw [← same, type] at comma
      split at comma
      · exact absurd comma (by decide)
      · exact absurd (( trim_infix front).subset comma) clear
  · obtain ⟨text, split, read⟩ := body_split comma labels
    rw [split, ← read]
    have type : (if contentType = [] then octetStream else trim contentType) = contentType ↔
        contentType ≠ [] ∧ trim contentType = contentType := by
      by_cases empty : contentType = []
      · have filled : octetStream ≠ [] := by decide
        simp [empty, filled]
      · simp [empty]
    constructor
    · rintro ⟨header, parsed, -, same, perm⟩
      cases labelsRead : parseLabels text [] with
      | error failure => simp [labelsRead, bind, Except.bind] at parsed
      | ok result =>
        rw [labelsRead] at parsed
        obtain rfl := Except.ok.inj parsed
        obtain ⟨filled, trimmed⟩ := type.mp same
        exact ⟨⟨filled, trimmed, comma⟩, result, rfl, perm⟩
    · rintro ⟨⟨filled, trimmed, -⟩, result, labelsRead, perm⟩
      refine ⟨_, by rw [labelsRead]; rfl, rfl, type.mpr ⟨filled, trimmed⟩, perm⟩

end Header

section Records

open BucketWrapper

def labelChars (label : Label) : LabelText := (label.name.toList, label.value.toList)

def sortedLabels (labels : List Label) : List Label :=
  labels.insertionSort fun first second => labelHeader first ≤ labelHeader second

def allLabels (record : RecordMeta) : List Label :=
  record.labels ++ record.computedLabels.map fun label => { label with name := "@" ++ label.name }

theorem toList_labelHeader (label : Label) : (labelHeader label).toList = labelText (labelChars label) := by
  unfold labelHeader labelText valueText labelChars
  rw [String.contains_char_eq]
  by_cases comma : ',' ∈ label.value.toList <;> simp [comma]

theorem map_sortedLabels (labels : List Label) :
    (labels.map labelHeader).insertionSort (· ≤ ·) = (sortedLabels labels).map labelHeader :=
  (List.map_insertionSort _ _ labelHeader labels fun _ _ _ _ => Iff.rfl).symm

theorem toList_header (contentLength : Nat) (contentType : String) (labels : List Label) :
    (",".intercalate (toString contentLength :: contentType :: (labels.map labelHeader).insertionSort (· ≤ ·))).toList =
      headerText contentLength contentType.toList ((sortedLabels labels).map labelChars) := by
  rw [map_sortedLabels, String.toList_intercalate, headerText, List.map_cons, List.map_cons, List.map_map, List.map_map,
    Nat.toString_eq_repr, Nat.toList_repr]
  congr 3
  exact List.map_congr_left fun label _ => toList_labelHeader label

theorem sortedLabels_chars (labels : List Label) :
    (sortedLabels labels).map labelChars =
      (labels.map labelChars).insertionSort fun first second => labelText first ≤ labelText second := by
  refine List.map_insertionSort _ _ labelChars labels fun first _ second _ => ?_
  rw [String.le_iff_toList_le, toList_labelHeader, toList_labelHeader]

def ReadBack (header : String) (contentLength : Nat) (contentType : String) (labels : List Label) : Prop :=
  ∃ parsed, parseBatchedHeader header.toList = .ok parsed ∧ parsed.contentLength = contentLength ∧
    parsed.contentType = contentType.toList ∧ parsed.labels.Perm (labels.map labelChars)

def Transferable (contentType : String) (labels : List Label) : Prop :=
  (contentType.toList ≠ [] ∧ trim contentType.toList = contentType.toList ∧ ',' ∉ contentType.toList) ∧
    Legible ((sortedLabels labels).map labelChars)

theorem readBack_iff {contentLength : Nat} (small : contentLength < 2 ^ 64) (contentType : String) (labels : List Label) :
    ReadBack (",".intercalate (toString contentLength :: contentType ::
        (labels.map labelHeader).insertionSort (· ≤ ·))) contentLength contentType labels ↔
      Transferable contentType labels := by
  have sorted : ((sortedLabels labels).map labelChars).Perm (labels.map labelChars) :=
    (List.perm_insertionSort _ labels).map labelChars
  rw [ReadBack, toList_header, Transferable, ← header_read_iff small]
  simp only [← sorted.congr_right]

/-- The headers of a write request and those of a batched read are read back if and only if the record is transferable. -/
theorem batch_header_iff (sent : SourceRecord) (returned : RecordMeta) (sentSmall : sent.contentLength < 2 ^ 64)
    (returnedSmall : returned.contentLength < 2 ^ 64) :
    (ReadBack (recordHeader sent false).text sent.contentLength sent.contentType sent.labels ↔
      Transferable sent.contentType sent.labels) ∧
    (ReadBack (makeBatchHeader returned) returned.contentLength returned.contentType (allLabels returned) ↔
      Transferable returned.contentType (allLabels returned)) :=
  ⟨readBack_iff sentSmall sent.contentType sent.labels,
    readBack_iff returnedSmall returned.contentType (allLabels returned)⟩

def quotedRecord : SourceRecord :=
  { timestamp := 1
    contentType := "text/plain"
    labels := [{ name := "pair", value := "x,y" }, { name := "a", value := "b=c" }]
    content := [1, 2, 3] }

def computedRecord : RecordMeta :=
  { entryName := "entry"
    timestamp := 1
    labels := [{ name := "a", value := "1" }]
    contentType := "text/plain"
    contentLength := 3
    computedLabels := [{ name := "b", value := "2" }] }

theorem text_quotedRecord : (recordHeader quotedRecord false).text.toList =
    "3,text/plain,a=b=c,pair=\"x,y\"".toList := by
  rw [show (recordHeader quotedRecord false).text.toList = _ from toList_header _ _ _, sortedLabels_chars]
  decide +kernel

theorem text_computedRecord : (makeBatchHeader computedRecord).toList = "3,text/plain,@b=2,a=1".toList := by
  rw [show (makeBatchHeader computedRecord).toList = _ from toList_header _ _ (allLabels computedRecord),
    sortedLabels_chars]
  decide +kernel

theorem batch_header_quoted :
    Transferable quotedRecord.contentType quotedRecord.labels ∧
      Transferable computedRecord.contentType (allLabels computedRecord) := by
  obtain ⟨sent, returned⟩ := batch_header_iff quotedRecord computedRecord (by decide) (by decide)
  refine ⟨sent.mp ?_, returned.mp ?_⟩
  · exact ⟨{
      contentLength := 3
      contentType := "text/plain".toList
      labels := [("a".toList, "b=c".toList), ("pair".toList, "x,y".toList)] },
      by rw [text_quotedRecord]; decide +kernel, rfl, rfl, by decide +kernel⟩
  · exact ⟨{
      contentLength := 3
      contentType := "text/plain".toList
      labels := [("@b".toList, "2".toList), ("a".toList, "1".toList)] },
      by rw [text_computedRecord]; decide +kernel, rfl, rfl, by decide +kernel⟩

def brokenRecord : SourceRecord :=
  { timestamp := 1
    contentType := "text/plain"
    labels := [{ name := "a", value := "b,\"c" }]
    content := [] }

theorem text_brokenRecord : (recordHeader brokenRecord false).text.toList = "0,text/plain,a=\"b,\"c\"".toList := by
  rw [show (recordHeader brokenRecord false).text.toList = _ from toList_header _ _ _, sortedLabels_chars]
  decide +kernel

theorem batch_header_broken :
    ¬ ReadBack (recordHeader brokenRecord false).text brokenRecord.contentLength brokenRecord.contentType
      brokenRecord.labels := by
  rintro ⟨parsed, read, -, -, same⟩
  have result : parseBatchedHeader (recordHeader brokenRecord false).text.toList = .ok {
      contentLength := 0
      contentType := "text/plain".toList
      labels := [("a".toList, "b,".toList)] } := by
    rw [text_brokenRecord]
    decide +kernel
  obtain rfl := Except.ok.inj (result.symm.trans read)
  exact absurd same (by decide +kernel)

end Records

end BatchHeader

end ReductStore
