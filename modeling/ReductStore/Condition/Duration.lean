import Mathlib
import ReductStore.Shared.Text
import ReductStore.Shared.Traced
import ReductStore.Storage.Record
import ReductStore.Condition.Integer

set_option autoImplicit false

namespace ReductStore.Condition

open Text Traced

def parseI64 (text : List Char) : Option Int64 :=
  match parseSigned text with
  | some number => if InI64 number then some (Int64.ofInt number) else none
  | none => none

def isNumeric (char : Char) : Bool := char.isDigit || char = '.' || char = '-'

def unitLength (unit : List Char) : Option Int64 :=
  if unit = ['m', 's'] then some 1000
  else if unit = ['s'] then some 1000000
  else if unit = ['m'] then some 60000000
  else if unit = ['h'] then some 3600000000
  else if unit = ['d'] then some 86400000000
  else none

def parseSingleDurationToMicros (build : Build) (durationString : List Char) : Traced IntOp ReductError Int64 :=
  if trim durationString = [] then fail (unprocessableEntity "Duration literal cannot be empty")
  else
    let durationString := trim durationString
    let numPart := durationString.filter isNumeric
    let unitPart := durationString.filter (! isNumeric ·)
    match parseI64 numPart with
    | none => fail (unprocessableEntity ("Invalid duration value: " ++ String.ofList durationString))
    | some value =>
      if unitPart = ['u', 's'] then pure value
      else
        match unitLength unitPart with
        | some length => build.mul value length
        | none => fail (unprocessableEntity ("Invalid duration unit: " ++ String.ofList unitPart))

def sumParts (build : Build) : Int64 → List (List Char) → Traced IntOp ReductError Int64
  | totalUsecs, [] => pure totalUsecs
  | totalUsecs, part :: parts => do
    let usecs ← parseSingleDurationToMicros build part
    let totalUsecs ← build.add totalUsecs usecs
    sumParts build totalUsecs parts

def parseDurationToMicros (build : Build) (durationString : List Char) : Traced IntOp ReductError Int64 :=
  if trim durationString = [] then fail (unprocessableEntity "Duration literal cannot be empty")
  else sumParts build 0 (splitWhitespace durationString)

def durationUnits : List (List Char × Int64) :=
  [(['d'], 86400000000), (['h'], 3600000000), (['m'], 60000000), (['s'], 1000000), (['m', 's'], 1000), (['u', 's'], 1)]

def fmtUnits (build : Build) : List (List Char × Int64) → Int64 → List (List Char) →
    Traced IntOp ReductError (List (List Char))
  | [], _, parts => pure parts
  | (unit, length) :: units, usec, parts => do
    let size ← build.abs usec
    if length ≤ size then
      let value ← build.div usec length
      let whole ← build.mul value length
      let usec ← build.sub usec whole
      fmtUnits build units usec (parts ++ [intText value.toInt ++ unit])
    else fmtUnits build units usec parts

def fmtDuration (build : Build) (usec : Int64) : Traced IntOp ReductError (List Char) := do
  let parts ← fmtUnits build durationUnits usec []
  let parts := if parts = [] then [['0', 'u', 's']] else parts
  pure ([' '].intercalate parts)

section Parse

variable {build : Build} {part : List Char} {parts : List (List Char)} {value length : Int64} {total : Int64}

def unitMicros (unit : List Char) : Option Int64 := if unit = ['u', 's'] then some 1 else unitLength unit

def reading (part : List Char) : Option (Int64 × Int64) :=
  match parseI64 (part.filter isNumeric) with
  | none => none
  | some value => (unitMicros (part.filter (! isNumeric ·))).map (value, ·)

structure Word (part : List Char) : Prop where
  filled : part ≠ []
  clear : ∀ char ∈ part, isWhitespace char = false

theorem Word.of_mem {text : List Char} (member : part ∈ splitWhitespace text) : Word part :=
  ⟨(mem_splitWhitespace member).1, (mem_splitWhitespace member).2⟩

theorem mul_one_outcome : (build.mul value 1 : Traced IntOp ReductError Int64).outcome = .value value := by
  have fits : InI64 (value.toInt * (1 : Int64).toInt) := by
    rw [show (1 : Int64).toInt = 1 from rfl, mul_one]
    exact inI64_toInt value
  rw [Build.mul_value fun _ => fits, Int64.mul_one]

theorem parseSingle_readable (word : Word part) (read : reading part = some (value, length)) :
    (parseSingleDurationToMicros build part).outcome =
      (build.mul value length : Traced IntOp ReductError Int64).outcome := by
  rw [parseSingleDurationToMicros, trim_word word.clear, if_neg word.filled]
  unfold reading at read
  split at read
  · cases read
  · next found parsed =>
    rw [Option.map_eq_some_iff] at read
    obtain ⟨length', known, same⟩ := read
    obtain ⟨rfl, rfl⟩ := Prod.mk.inj same
    simp only [parsed]
    unfold unitMicros at known
    split_ifs at known ⊢ with micros
    · obtain rfl := Option.some.inj known
      rw [mul_one_outcome]
      rfl
    · simp [known]

theorem parseSingle_unreadable (word : Word part) (read : reading part = none) :
    ∃ failure, (parseSingleDurationToMicros build part).outcome = .error failure := by
  rw [parseSingleDurationToMicros, trim_word word.clear, if_neg word.filled]
  unfold reading at read
  split at read
  · next parsed => simp only [parsed]; exact ⟨_, rfl⟩
  · next found parsed =>
    rw [Option.map_eq_none_iff, unitMicros] at read
    simp only [parsed]
    split_ifs at read ⊢
    simp only [read]
    exact ⟨_, rfl⟩

def exactUsecs (part : List Char) : Int :=
  match reading part with
  | none => 0
  | some (value, length) => value.toInt * length.toInt

def Fits : Int → List (List Char) → Prop
  | _, [] => True
  | total, part :: parts =>
    reading part = none ∨
      InI64 (exactUsecs part) ∧ InI64 (total + exactUsecs part) ∧ Fits (total + exactUsecs part) parts

def Readable (part : List Char) : Prop := (reading part).isSome

theorem exactUsecs_eq (read : reading part = some (value, length)) : exactUsecs part = value.toInt * length.toInt := by
  simp [exactUsecs, read]

theorem ofInt_sum (total : Int64) (value length : Int64) (rest : Int) :
    Int64.ofInt ((total + value * length).toInt + rest) = Int64.ofInt (total.toInt + (value.toInt * length.toInt + rest)) := by
  rw [Int64.ofInt_add, Int64.ofInt_toInt, Int64.ofInt_add, Int64.ofInt_toInt, Int64.ofInt_add, Int64.ofInt_mul,
    Int64.ofInt_toInt, Int64.ofInt_toInt, Int64.add_assoc]

theorem sumParts_cons (word : Word part) (read : reading part = some (value, length))
    (product : build = .debug → InI64 (value.toInt * length.toInt))
    (sum : build = .debug → InI64 (total.toInt + value.toInt * length.toInt)) :
    (sumParts build total (part :: parts)).outcome = (sumParts build (total + value * length) parts).outcome := by
  have single : (parseSingleDurationToMicros build part).outcome = .value (value * length) := by
    rw [parseSingle_readable word read, Build.mul_value product]
  have added : (build.add total (value * length) : Traced IntOp ReductError Int64).outcome =
      .value (total + value * length) :=
    Build.add_value fun debug => by rw [toInt_mul (product debug)]; exact sum debug
  rw [sumParts, outcome_bind_value single, outcome_bind_value added]

-- Neither build traps: the sum is the exact one, wrapped around in a release build.
theorem sumParts_outcome (words : ∀ part ∈ parts, Word part) (fits : build = .debug → Fits total.toInt parts) :
    ((∀ part ∈ parts, Readable part) →
      (sumParts build total parts).outcome = .value (Int64.ofInt (total.toInt + (parts.map exactUsecs).sum))) ∧
    ((∃ part ∈ parts, ¬ Readable part) → ∃ failure, (sumParts build total parts).outcome = .error failure) := by
  induction parts generalizing total with
  | nil => simp [sumParts, outcome_pure, Int64.ofInt_toInt]
  | cons part parts ih =>
    rw [List.forall_mem_cons] at words
    cases read : reading part with
    | none =>
      obtain ⟨failure, single⟩ : ∃ failure, (parseSingleDurationToMicros build part).outcome = .error failure :=
        parseSingle_unreadable words.1 read
      have unreadable : ¬ Readable part := by simp [Readable, read]
      refine ⟨fun all => absurd (all part List.mem_cons_self) unreadable, fun _ => ⟨failure, ?_⟩⟩
      rw [sumParts, outcome_bind_error single]
    | some found =>
      obtain ⟨value, length⟩ := found
      have exact_part := exactUsecs_eq read
      have fitting : build = .debug → InI64 (value.toInt * length.toInt) ∧
          InI64 (total.toInt + value.toInt * length.toInt) ∧ Fits (total.toInt + value.toInt * length.toInt) parts := by
        intro debug
        have whole := fits debug
        rw [Fits, exact_part] at whole
        exact whole.resolve_left (by simp [read])
      have later : build = .debug → Fits (total + value * length).toInt parts := by
        intro debug
        obtain ⟨first, second, third⟩ := fitting debug
        have whole : (value * length).toInt = value.toInt * length.toInt := toInt_mul first
        rwa [toInt_add (by rwa [whole]), whole]
      obtain ⟨reads, fails⟩ := ih words.2 later
      have readable : Readable part := by simp [Readable, read]
      rw [sumParts_cons words.1 read (fun debug => (fitting debug).1) fun debug => (fitting debug).2.1]
      refine ⟨fun all => ?_, fun some_fails => fails ?_⟩
      · rw [reads fun other member => all other (List.mem_cons_of_mem _ member), ofInt_sum, List.map_cons, List.sum_cons,
          exact_part]
      · obtain ⟨other, member, unreadable⟩ := some_fails
        rcases List.mem_cons.mp member with rfl | inside
        · exact absurd readable unreadable
        · exact ⟨other, inside, unreadable⟩

theorem sumParts_panic (words : ∀ part ∈ parts, Word part) (excess : ¬ Fits total.toInt parts) :
    (sumParts .debug total parts).outcome = .panic := by
  induction parts generalizing total with
  | nil => exact absurd trivial excess
  | cons part parts ih =>
    rw [List.forall_mem_cons] at words
    rw [Fits, not_or] at excess
    obtain ⟨⟨value, length⟩, read⟩ := Option.ne_none_iff_exists'.mp excess.1
    have excess := excess.2
    rw [exactUsecs_eq read] at excess
    by_cases product : InI64 (value.toInt * length.toInt)
    · have whole : (value * length).toInt = value.toInt * length.toInt := toInt_mul product
      by_cases sum : InI64 (total.toInt + value.toInt * length.toInt)
      · have next : (total + value * length).toInt = total.toInt + value.toInt * length.toInt := by
          rw [toInt_add (by rwa [whole]), whole]
        rw [sumParts_cons words.1 read (fun _ => product) fun _ => sum]
        exact ih words.2 fun fits => excess ⟨product, sum, next ▸ fits⟩
      · have single : (parseSingleDurationToMicros .debug part).outcome = .value (value * length) := by
          rw [parseSingle_readable words.1 read, Build.mul_value fun _ => product]
        rw [sumParts, outcome_bind_value single, outcome_bind_panic]
        exact Build.add_panic (by rwa [whole])
    · have single : (parseSingleDurationToMicros .debug part).outcome = .panic := by
        rw [parseSingle_readable words.1 read, Build.mul_panic product]
      rw [sumParts, outcome_bind_panic single]

end Parse

section Format

variable {build : Build} {units : List (List Char × Int64)} {usec : Int}

structure KnownUnit (unit : List Char × Int64) : Prop where
  plain : (unit.1.all fun char => ! isNumeric char && ! isWhitespace char) = true
  length : unitMicros unit.1 = some unit.2
  positive : 0 < unit.2.toInt

theorem KnownUnit.letters {unit : List Char × Int64} (known : KnownUnit unit) :
    ∀ char ∈ unit.1, isNumeric char = false ∧ isWhitespace char = false := by
  intro char member
  simpa using List.all_eq_true.mp known.plain char member

theorem knownUnit_of_mem : ∀ unit ∈ durationUnits, KnownUnit unit := by
  intro unit member
  simp only [durationUnits, List.mem_cons, List.not_mem_nil, or_false] at member
  rcases member with rfl | rfl | rfl | rfl | rfl | rfl <;> exact ⟨by decide, by simp [unitMicros, unitLength], by decide⟩

theorem isNumeric_intText (number : Int) : ∀ char ∈ intText number, isNumeric char = true := by
  intro char member
  unfold intText at member
  split_ifs at member
  · rcases List.mem_cons.mp member with rfl | digit
    · decide
    · simp [isNumeric, isDigit_of_toDigits _ digit]
  · simp [isNumeric, isDigit_of_toDigits _ member]

theorem clear_of_isNumeric {char : Char} (numeric : isNumeric char = true) : isWhitespace char = false := by
  simp only [isNumeric, Bool.or_eq_true, decide_eq_true_eq] at numeric
  rcases numeric with (digit | rfl) | rfl
  · have range := Char.isDigit_iff_toNat.mp digit
    rw [show ('0' : Char).toNat = 48 from rfl, show ('9' : Char).toNat = 57 from rfl] at range
    simp only [isWhitespace, Bool.or_eq_false_iff, Bool.and_eq_false_iff, decide_eq_false_iff_not]
    omega
  · decide
  · decide

theorem reading_text {number : Int} {unit : List Char × Int64} (fits : InI64 number) (known : KnownUnit unit) :
    reading (intText number ++ unit.1) = some (Int64.ofInt number, unit.2) := by
  have numbers : (intText number ++ unit.1).filter isNumeric = intText number := by
    rw [List.filter_append, List.filter_eq_self.mpr (isNumeric_intText number),
      List.filter_eq_nil_iff.mpr fun char member => by simp [(known.letters char member).1], List.append_nil]
  have letters : (intText number ++ unit.1).filter (! isNumeric ·) = unit.1 := by
    rw [List.filter_append, List.filter_eq_nil_iff.mpr fun char member => by simp [isNumeric_intText number char member],
      List.filter_eq_self.mpr fun char member => by simp [(known.letters char member).1], List.nil_append]
  simp [reading, numbers, letters, parseI64, parseSigned_intText, fits, known.length]

theorem word_text (number : Int) {unit : List Char × Int64} (known : KnownUnit unit) : Word (intText number ++ unit.1) := by
  constructor
  · have filled : intText number ≠ [] := by
      unfold intText
      split_ifs
      · simp
      · exact Nat.toDigits_ne_nil
    simp [filled]
  · intro char member
    rcases List.mem_append.mp member with number_char | letter
    · exact clear_of_isNumeric (isNumeric_intText number char number_char)
    · exact (known.letters char letter).2

def chunks : List (List Char × Int64) → Int → List (Int × List Char × Int64)
  | [], _ => []
  | unit :: units, usec =>
    if unit.2.toInt ≤ usec.natAbs then
      (usec.tdiv unit.2.toInt, unit) :: chunks units (usec - usec.tdiv unit.2.toInt * unit.2.toInt)
    else chunks units usec

def chunkText (chunk : Int × List Char × Int64) : List Char := intText chunk.1 ++ chunk.2.1

theorem tdiv_between (usec : Int) {length : Int} (positive : 0 < length) :
    (usec - usec.tdiv length * length).natAbs < length ∧
      (0 ≤ usec → 0 ≤ usec.tdiv length * length ∧ usec.tdiv length * length ≤ usec) ∧
      (usec ≤ 0 → usec ≤ usec.tdiv length * length ∧ usec.tdiv length * length ≤ 0) := by
  have split := Int.tmod_add_mul_tdiv usec length
  rw [Int.mul_comm] at split
  have rest : usec - usec.tdiv length * length = usec.tmod length := by omega
  have small : (usec.tmod length).natAbs < length := by
    rw [Int.natAbs_tmod]
    have bound := Nat.mod_lt usec.natAbs (Int.natAbs_pos.mpr positive.ne')
    omega
  have sign : (0 ≤ usec → 0 ≤ usec.tmod length) ∧ (usec ≤ 0 → usec.tmod length ≤ 0) := by
    refine ⟨Int.tmod_nonneg length, fun nonpos => ?_⟩
    have opposite := Int.tmod_nonneg length (neg_nonneg.mpr nonpos)
    rw [Int.neg_tmod] at opposite
    omega
  rw [rest]
  refine ⟨small, fun nonneg => ?_, fun nonpos => ?_⟩
  · have := sign.1 nonneg
    have := Int.tdiv_nonneg nonneg positive.le
    have := Int.mul_nonneg this positive.le
    omega
  · have := sign.2 nonpos
    have := Int.tdiv_nonneg (neg_nonneg.mpr nonpos) positive.le
    rw [Int.neg_tdiv] at this
    have := Int.mul_nonneg this positive.le
    rw [Int.neg_mul] at this
    omega

structure Alike (written left : Int) : Prop where
  sign : 0 ≤ written ∧ 0 ≤ left ∨ written ≤ 0 ∧ left ≤ 0
  fits : InI64 (written + left)

theorem Alike.chunk {written left length : Int} (alike : Alike written left) (positive : 0 < length) :
    InI64 (left.tdiv length * length) ∧ InI64 (written + left.tdiv length * length) ∧
      Alike (written + left.tdiv length * length) (left - left.tdiv length * length) := by
  obtain ⟨_, above, below⟩ := tdiv_between left positive
  have low := alike.fits.1
  have high := alike.fits.2
  have sum : written + left.tdiv length * length + (left - left.tdiv length * length) = written + left := by omega
  rcases alike.sign with ⟨first, second⟩ | ⟨first, second⟩
  · have range := above second
    exact ⟨⟨by omega, by omega⟩, ⟨by omega, by omega⟩, Or.inl ⟨by omega, by omega⟩, sum ▸ alike.fits⟩
  · have range := below second
    exact ⟨⟨by omega, by omega⟩, ⟨by omega, by omega⟩, Or.inr ⟨by omega, by omega⟩, sum ▸ alike.fits⟩

theorem inI64_tdiv {left length : Int} (fits : InI64 left) (positive : 0 < length) : InI64 (left.tdiv length) := by
  have low := fits.1
  have high := fits.2
  have size : (left.tdiv length).natAbs ≤ left.natAbs := by
    rw [Int.natAbs_tdiv]
    exact Nat.div_le_self _ _
  have above : 0 ≤ left → 0 ≤ left.tdiv length := fun nonneg => Int.tdiv_nonneg nonneg positive.le
  have below : left ≤ 0 → left.tdiv length ≤ 0 := by
    intro nonpos
    have opposite := Int.tdiv_nonneg (neg_nonneg.mpr nonpos) positive.le
    rw [Int.neg_tdiv] at opposite
    omega
  exact ⟨by omega, by omega⟩

theorem inI64_rest {left length : Int} (fits : InI64 left) (positive : 0 < length) :
    InI64 (left.tdiv length * length) ∧ InI64 (left - left.tdiv length * length) := by
  obtain ⟨_, above, below⟩ := tdiv_between left positive
  have low := fits.1
  have high := fits.2
  rcases le_total 0 left with nonneg | nonpos
  · have range := above nonneg
    exact ⟨⟨by omega, by omega⟩, by omega, by omega⟩
  · have range := below nonpos
    exact ⟨⟨by omega, by omega⟩, by omega, by omega⟩

def leftOver : List (List Char × Int64) → Int → Int
  | [], usec => usec
  | unit :: units, usec =>
    if unit.2.toInt ≤ usec.natAbs then leftOver units (usec - usec.tdiv unit.2.toInt * unit.2.toInt)
    else leftOver units usec

theorem exactUsecs_chunkText {number : Int} {unit : List Char × Int64} (fits : InI64 number) (known : KnownUnit unit) :
    exactUsecs (chunkText (number, unit)) = number * unit.2.toInt := by
  rw [chunkText, exactUsecs_eq (reading_text fits known), toInt_ofInt fits]

theorem chunks_fit {written : Int} (known : ∀ unit ∈ units, KnownUnit unit) (alike : Alike written usec) (left_fits : InI64 usec) :
    Fits written ((chunks units usec).map chunkText) ∧ (∀ part ∈ (chunks units usec).map chunkText, Word part ∧ Readable part) ∧
      (((chunks units usec).map chunkText).map exactUsecs).sum + leftOver units usec = usec := by
  induction units generalizing written usec with
  | nil => simp [chunks, Fits, leftOver]
  | cons unit units ih =>
    rw [List.forall_mem_cons] at known
    rw [chunks, leftOver]
    split_ifs with large
    · obtain ⟨product, sum, next⟩ := alike.chunk known.1.positive
      have number := inI64_tdiv left_fits known.1.positive
      have part := exactUsecs_chunkText number known.1
      have read := reading_text number known.1
      obtain ⟨fits, reads, total⟩ := ih known.2 next (inI64_rest left_fits known.1.positive).2
      refine ⟨Or.inr ⟨part ▸ product, part ▸ sum, part ▸ fits⟩, ?_, ?_⟩
      · rw [List.map_cons, List.forall_mem_cons]
        exact ⟨⟨word_text _ known.1, by simp [Readable, chunkText, read]⟩, reads⟩
      · rw [List.map_cons, List.map_cons, List.sum_cons, part]
        omega
    · exact ih known.2 alike left_fits

theorem fmtUnits_outcome {value : Int64} {parts : List (List Char)} (known : ∀ unit ∈ units, KnownUnit unit)
    (other : value ≠ Int64.minValue) :
    (fmtUnits build units value parts).outcome = .value (parts ++ (chunks units value.toInt).map chunkText) := by
  induction units generalizing value parts with
  | nil => simp [fmtUnits, chunks, outcome_pure]
  | cons unit units ih =>
    rw [List.forall_mem_cons] at known
    rw [fmtUnits, outcome_bind_value (Build.abs_value fun _ => other), chunks]
    have size : unit.2 ≤ value.abs ↔ unit.2.toInt ≤ value.toInt.natAbs := by
      rw [Int64.le_iff_toInt_le, toInt_abs other]
    by_cases large : unit.2.toInt ≤ value.toInt.natAbs
    · obtain ⟨product, rest⟩ := inI64_rest (inI64_toInt value) known.1.positive
      have quotient : (value / unit.2).toInt = value.toInt.tdiv unit.2.toInt :=
        toInt_div (inI64_tdiv (inI64_toInt value) known.1.positive)
      have whole : (value / unit.2 * unit.2).toInt = value.toInt.tdiv unit.2.toInt * unit.2.toInt := by
        rw [toInt_mul (by rwa [quotient]), quotient]
      have left : (value - value / unit.2 * unit.2).toInt =
          value.toInt - value.toInt.tdiv unit.2.toInt * unit.2.toInt := by
        rw [toInt_sub (by rwa [whole]), whole]
      have shorter : value - value / unit.2 * unit.2 ≠ Int64.minValue := by
        intro least
        have small := (tdiv_between value.toInt known.1.positive).1
        have range := inI64_toInt value
        rw [least, Int64.toInt_minValue] at left
        rw [← left] at small
        unfold InI64 at range
        omega
      rw [if_pos (size.mpr large), if_pos large, outcome_bind_value (Build.div_value known.1.positive),
        outcome_bind_value (Build.mul_value fun _ => by rwa [quotient]),
        outcome_bind_value (Build.sub_value fun _ => by rwa [whole]), ih known.2 shorter, left, quotient]
      simp [chunkText]
    · rw [if_neg (mt size.mp large), if_neg large, ih known.2 other]

theorem leftOver_concat (units : List (List Char × Int64)) (unit : List Char × Int64) (usec : Int) :
    leftOver (units ++ [unit]) usec = leftOver [unit] (leftOver units usec) := by
  induction units generalizing usec with
  | nil => rfl
  | cons first units ih =>
    by_cases large : first.2.toInt ≤ usec.natAbs
    · have step : leftOver (first :: units) usec = _ := if_pos large
      rw [step, List.cons_append, leftOver, if_pos large, ih]
    · have step : leftOver (first :: units) usec = _ := if_neg large
      rw [step, List.cons_append, leftOver, if_neg large, ih]

-- The last unit is one microsecond, so nothing is left.
theorem leftOver_durationUnits (usec : Int) : leftOver durationUnits usec = 0 := by
  have last : durationUnits = durationUnits.dropLast ++ [(['u', 's'], 1)] := rfl
  rw [last, leftOver_concat]
  generalize leftOver durationUnits.dropLast usec = rest
  have small := (tdiv_between rest (show (0 : Int) < (1 : Int64).toInt by decide)).1
  have one : (1 : Int64).toInt = 1 := rfl
  simp only [leftOver, one] at small ⊢
  split_ifs <;> omega

theorem fmtDuration_outcome {value : Int64} (other : value ≠ Int64.minValue) :
    (fmtDuration build value).outcome = .value ([' '].intercalate
      (if (chunks durationUnits value.toInt).map chunkText = [] then [['0', 'u', 's']]
        else (chunks durationUnits value.toInt).map chunkText)) := by
  rw [fmtDuration, outcome_bind_value (fmtUnits_outcome knownUnit_of_mem other)]
  rfl

theorem parse_words {parts : List (List Char)} (filled : parts ≠ []) (words : ∀ part ∈ parts, Word part ∧ Readable part)
    (fits : Fits 0 parts) :
    (parseDurationToMicros build ([' '].intercalate parts)).outcome = .value (Int64.ofInt (parts.map exactUsecs).sum) := by
  have split : splitWhitespace ([' '].intercalate parts) = parts :=
    splitWhitespace_intercalate (fun part member => (words part member).1.filled) fun part member => (words part member).1.clear
  have proper : trim ([' '].intercalate parts) ≠ [] := by
    rwa [ne_eq, trim_eq_nil_iff_splitWhitespace, split]
  have zero : (0 : Int64).toInt = 0 := rfl
  obtain ⟨sum, _⟩ : _ ∧ ((∃ part ∈ parts, ¬ Readable part) → ∃ failure, (sumParts build 0 parts).outcome = .error failure) :=
    sumParts_outcome (fun part member => (words part member).1) fun _ => zero ▸ fits
  rw [parseDurationToMicros, if_neg proper, split, sum fun part member => (words part member).2, zero, zero_add]

theorem parse_fmtDuration {value : Int64} (other : value ≠ Int64.minValue) :
    (fmtDuration build value >>= parseDurationToMicros build).outcome = .value value := by
  have range := inI64_toInt value
  have alike : Alike 0 value.toInt :=
    ⟨(le_total 0 value.toInt).imp (fun above => ⟨le_rfl, above⟩) fun below => ⟨le_rfl, below⟩, by simpa using range⟩
  obtain ⟨fits, words, total⟩ := chunks_fit knownUnit_of_mem alike range
  rw [leftOver_durationUnits, add_zero] at total
  rw [outcome_bind_value (fmtDuration_outcome other)]
  split_ifs with empty
  · -- no unit was written, so the duration is zero
    rw [empty] at total
    obtain rfl : value = 0 := Int64.toInt_inj.mp total.symm
    cases build <;> decide +kernel
  · rw [parse_words empty words fits, total, Int64.ofInt_toInt]

end Format

section Literal

variable {build : Build} {text part : List Char} {usecs total : Int}

inductive Formed : List Char → Int → Prop where
  | positive {digits unit : List Char} {number : Nat} {length : Int64} (filled : digits ≠ [])
      (decimal : ∀ char ∈ digits, char.isDigit = true) (read : parseDigits 0 digits = some number)
      (known : unitMicros unit = some length) : Formed (digits ++ unit) (number * length.toInt)
  | negative {digits unit : List Char} {number : Nat} {length : Int64} (filled : digits ≠ [])
      (decimal : ∀ char ∈ digits, char.isDigit = true) (read : parseDigits 0 digits = some number)
      (known : unitMicros unit = some length) : Formed ('-' :: digits ++ unit) (-number * length.toInt)

structure Literal (text : List Char) (total : Int) : Prop where
  filled : splitWhitespace text ≠ []
  parts : ∃ values, List.Forall₂ Formed (splitWhitespace text) values ∧ total = values.sum

theorem unit_letters {unit : List Char} {length : Int64} (known : unitMicros unit = some length) :
    unit.filter isNumeric = [] ∧ unit.filter (! isNumeric ·) = unit := by
  unfold unitMicros unitLength at known
  split_ifs at known with us ms s m h d <;> subst_vars <;> decide

theorem reading_of {number_text unit : List Char} {number : Int} {length : Int64}
    (numeric : ∀ char ∈ number_text, isNumeric char = true) (parsed : parseSigned number_text = some number)
    (known : unitMicros unit = some length) :
    reading (number_text ++ unit) = if InI64 number then some (Int64.ofInt number, length) else none := by
  obtain ⟨digits_only, letters⟩ := unit_letters known
  have front : number_text.filter (! isNumeric ·) = [] := by
    rw [List.filter_eq_nil_iff]
    intro char member
    simp [numeric char member]
  by_cases fits : InI64 number <;>
    simp [reading, List.filter_append, List.filter_eq_self.mpr numeric, digits_only, letters, front, parseI64, parsed, fits,
      known]

theorem Formed.exactUsecs_eq (formed : Formed part usecs) (readable : Readable part) : exactUsecs part = usecs := by
  have whole : ∀ {number_text unit : List Char} {number : Int} {length : Int64},
      (∀ char ∈ number_text, isNumeric char = true) → parseSigned number_text = some number →
      unitMicros unit = some length → Readable (number_text ++ unit) →
      exactUsecs (number_text ++ unit) = number * length.toInt := by
    intro number_text unit number length numeric parsed known readable
    have read := reading_of numeric parsed known
    split_ifs at read with fits
    · rw [Condition.exactUsecs_eq read, toInt_ofInt fits]
    · simp [Readable, read] at readable
  cases formed with
  | positive filled decimal read known =>
    refine whole (fun char member => by simp [isNumeric, decimal char member]) ?_ known readable
    rw [parseSigned_digits filled decimal, read]
    rfl
  | negative filled decimal read known =>
    refine whole (fun char member => ?_) ?_ known readable
    · rcases List.mem_cons.mp member with rfl | digit
      · decide
      · simp [isNumeric, decimal char digit]
    · simp [parseSigned, filled, read]

theorem sum_exactUsecs {parts : List (List Char)} {values : List Int} (formed : List.Forall₂ Formed parts values)
    (readable : ∀ part ∈ parts, Readable part) : (parts.map exactUsecs).sum = values.sum := by
  induction formed with
  | nil => rfl
  | cons first later ih =>
    rw [List.forall_mem_cons] at readable
    rw [List.map_cons, List.sum_cons, List.sum_cons, first.exactUsecs_eq readable.1, ih readable.2]

structure ParsesExactly (build : Build) (text : List Char) : Prop where
  accepts : ∀ value : Int64, (parseDurationToMicros build text).outcome = .value value ↔ Literal text value.toInt
  returns : (parseDurationToMicros build text).outcome ≠ .panic

structure ExactText (build : Build) (text : List Char) : Prop where
  fits : build = .debug → Fits 0 (splitWhitespace text)
  literal : ∀ total, Literal text total → ((∀ part ∈ splitWhitespace text, Readable part) ↔ InI64 total)
  others : (¬ ∃ total, Literal text total) → splitWhitespace text ≠ [] → ∃ part ∈ splitWhitespace text, ¬ Readable part

theorem Literal.total_eq (literal : Literal text total) (readable : ∀ part ∈ splitWhitespace text, Readable part) :
    total = ((splitWhitespace text).map exactUsecs).sum := by
  obtain ⟨values, formed, rfl⟩ := literal.parts
  exact (sum_exactUsecs formed readable).symm

-- All parts can be read: the result is their sum, so this sum has to be that of a literal and to fit.
theorem parsesExactly_readable (filled : splitWhitespace text ≠ [])
    (fits : build = .debug → Fits 0 (splitWhitespace text)) (readable : ∀ part ∈ splitWhitespace text, Readable part)
    (result : (parseDurationToMicros build text).outcome =
      .value (Int64.ofInt ((splitWhitespace text).map exactUsecs).sum)) :
    ParsesExactly build text ↔ ExactText build text := by
  constructor
  · intro exactly
    have literal := (exactly.accepts _).mp result
    refine ⟨fits, fun total other => iff_of_true readable ?_, fun missing => absurd ⟨_, literal⟩ missing⟩
    rw [other.total_eq readable, ← literal.total_eq readable]
    exact inI64_toInt _
  · intro exact_text
    have some_literal : ∃ total, Literal text total := by
      by_contra missing
      obtain ⟨part, member, unreadable⟩ := exact_text.others missing filled
      exact unreadable (readable part member)
    obtain ⟨total, literal⟩ := some_literal
    have range := (exact_text.literal total literal).mp readable
    have same := literal.total_eq readable
    rw [← same] at result
    refine ⟨fun value => ?_, by simp [result]⟩
    rw [result, Outcome.value.injEq]
    constructor
    · rintro rfl
      rwa [toInt_ofInt range]
    · intro other
      rw [same, ← other.total_eq readable, Int64.ofInt_toInt]

theorem parsesExactly_unreadable
    (fits : build = .debug → Fits 0 (splitWhitespace text))
    (unreadable : ∃ part ∈ splitWhitespace text, ¬ Readable part)
    (result : ∃ failure, (parseDurationToMicros build text).outcome = .error failure) :
    ParsesExactly build text ↔ ExactText build text := by
  obtain ⟨failure, result⟩ := result
  have some_fails : ¬ ∀ part ∈ splitWhitespace text, Readable part := by simpa using unreadable
  constructor
  · intro exactly
    refine ⟨fits, fun total literal => iff_of_false some_fails fun range => ?_, fun _ _ => unreadable⟩
    have accepted := (exactly.accepts (Int64.ofInt total)).mpr (by rwa [toInt_ofInt range])
    rw [result] at accepted
    cases accepted
  · intro exact_text
    refine ⟨fun value => iff_of_false (by simp [result]) fun literal => ?_, by simp [result]⟩
    exact some_fails ((exact_text.literal _ literal).mpr (inI64_toInt value))

theorem parsesExactly_iff (build : Build) (text : List Char) : ParsesExactly build text ↔ ExactText build text := by
  have words : ∀ part ∈ splitWhitespace text, Word part := fun part => Word.of_mem
  by_cases empty : splitWhitespace text = []
  · have result : (parseDurationToMicros build text).outcome =
        .error (unprocessableEntity "Duration literal cannot be empty") := by
      rw [parseDurationToMicros, if_pos (trim_eq_nil_iff_splitWhitespace.mpr empty)]
      rfl
    refine iff_of_true ⟨fun value => ?_, by simp [result]⟩ ⟨fun _ => ?_, fun total literal => ?_, fun _ filled => ?_⟩
    · exact iff_of_false (by simp [result]) fun literal => literal.filled empty
    · simp [empty, Fits]
    · exact absurd empty literal.filled
    · exact absurd empty filled
  have whole : parseDurationToMicros build text = sumParts build 0 (splitWhitespace text) :=
    if_neg (mt trim_eq_nil_iff_splitWhitespace.mp empty)
  have zero : (0 : Int64).toInt = 0 := rfl
  by_cases fits : build = .debug → Fits 0 (splitWhitespace text)
  · obtain ⟨reads, fails⟩ : _ ∧ _ := sumParts_outcome words (zero.symm ▸ fits)
    rw [← whole] at reads fails
    by_cases readable : ∀ part ∈ splitWhitespace text, Readable part
    · exact parsesExactly_readable empty fits readable (by rw [reads readable, zero, zero_add])
    · have unreadable : ∃ part ∈ splitWhitespace text, ¬ Readable part := by simpa using readable
      exact parsesExactly_unreadable fits unreadable (fails unreadable)
  · refine iff_of_false (fun exactly => exactly.returns ?_) fun exact_text => fits exact_text.fits
    rw [Classical.not_imp] at fits
    obtain ⟨rfl, excess⟩ := fits
    rw [whole]
    exact sumParts_panic words excess

end Literal

end ReductStore.Condition
