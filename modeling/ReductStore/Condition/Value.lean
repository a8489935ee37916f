import Mathlib
import ReductStore.Shared.Text
import ReductStore.Shared.Traced
import ReductStore.Storage.Record
import ReductStore.Condition.Integer
import ReductStore.Condition.Duration

set_option autoImplicit false

namespace ReductStore.Condition

open Text Traced

abbrev Eval (α : Type) := Traced IntOp ReductError α

inductive Value (F : Type) where
  | bool (value : Bool)
  | int (value : Int64)
  | float (value : F)
  | string (value : List Char)
  | duration (value : Int64)
  deriving DecidableEq

namespace Value

variable {F : Type}

def parseDuration (build : Build) (durationString : List Char) : Eval (Value F) := do
  let usecs ← parseDurationToMicros build durationString
  pure (.duration usecs)

section Duration

theorem parseDuration_value {F : Type} {build : Build} {text : List Char} {usecs : Int64}
    (parsed : (parseDurationToMicros build text).outcome = .value usecs) :
    (parseDuration build text : Eval (Value F)).outcome = .value (.duration usecs) := by
  rw [parseDuration, outcome_bind_value parsed]
  rfl

theorem fmtDuration_minValue :
    (fmtDuration .debug Int64.minValue).outcome = .panic ∧
      (fmtDuration .release Int64.minValue).outcome = .value "0us".toList := by
  decide +kernel

/-- Every duration but the least one is read back from its text. -/
theorem parse_fmtDuration_iff (F : Type) (build : Build) (usecs : Int64) :
    (fmtDuration build usecs >>= fun text => (parseDuration build text : Eval (Value F))).outcome =
      .value (.duration usecs) ↔ usecs ≠ Int64.minValue := by
  constructor
  · rintro parsed rfl
    obtain ⟨text, formatted, parsed⟩ := bind_eq_value parsed
    cases build with
    | debug =>
      rw [fmtDuration_minValue.1] at formatted
      cases formatted
    | release =>
      rw [fmtDuration_minValue.2] at formatted
      obtain rfl := Outcome.value.inj formatted
      have zero : (parseDurationToMicros .release "0us".toList).outcome = .value 0 := by decide +kernel
      rw [parseDuration_value zero, Outcome.value.injEq, Value.duration.injEq] at parsed
      exact absurd parsed (by decide)
  · intro other
    obtain ⟨text, formatted, parsed⟩ := bind_eq_value (parse_fmtDuration other)
    rw [outcome_bind_value formatted, parseDuration_value parsed]

theorem least_duration_lost :
    (fmtDuration .release Int64.minValue >>= fun text => (parseDuration .release text : Eval (Value Unit))).outcome =
      .value (.duration 0) := by
  decide +kernel

end Duration

end Value

section Literals

inductive LiteralNode (F O : Type) where
  | reference (name : List Char)
  | computedReference (name : List Char)
  | constant (value : Value F)
  | operator (operator : O)
  deriving DecidableEq

variable {F O : Type} (build : Build) (parseOperator : List Char → Except ReductError O) {text : List Char}

def parseLiteral : List Char → Eval (LiteralNode F O)
  | '&' :: name => pure (.reference name)
  | '@' :: name => pure (.computedReference name)
  | '$' :: '$' :: text => pure (.constant (.string ('$' :: text)))
  | '$' :: text =>
    match parseOperator ('$' :: text) with
    | .ok operator => pure (.operator operator)
    | .error _ =>
      fail (unprocessableEntity ("Unknown '$' literal '" ++ String.ofList ('$' :: text) ++
        "'; use '$$' to escape a string value"))
  | text => do
    match ← attempt (Value.parseDuration build text) with
    | .ok duration => pure (.constant duration)
    | .error _ => pure (.constant (.string text))

def Bare (text : List Char) : Prop := ∀ mark ∈ ['&', '@', '$'], text.head? ≠ some mark

theorem parseLiteral_bare (bare : Bare text) :
    (parseLiteral build parseOperator text : Eval (LiteralNode F O)) = (do
      match ← attempt (Value.parseDuration build text) with
      | .ok duration => pure (.constant duration)
      | .error _ => pure (.constant (.string text))) := by
  unfold parseLiteral
  split
  · exact absurd rfl (bare '&' (by simp))
  · exact absurd rfl (bare '@' (by simp))
  · exact absurd rfl (bare '$' (by simp))
  · exact absurd rfl (bare '$' (by simp))
  · rfl

theorem parseLiteral_string (bare : Bare text) {failure : ReductError}
    (refused : (parseDurationToMicros build text).outcome = .error failure) :
    (parseLiteral build parseOperator text : Eval (LiteralNode F O)).outcome = .value (.constant (.string text)) := by
  have attempted : (attempt (Value.parseDuration build text) : Eval (Except ReductError (Value F))).outcome =
      .value (.error failure) := by
    rw [attempt, Value.parseDuration, outcome_bind_error refused]
  rw [parseLiteral_bare build parseOperator bare, outcome_bind_value attempted]
  rfl

structure ReadsLiterals (F : Type) (text : List Char) : Prop extends ParsesExactly build text where
  strings : Bare text → (¬ ∃ value : Int64, Literal text value.toInt) →
    (parseLiteral build parseOperator text : Eval (LiteralNode F O)).outcome = .value (.constant (.string text))

/-- The parser keeps to the form of the literals exactly for the texts in which no number stands apart from the
front of its part and no number or sum leaves the range. -/
theorem reads_literals_iff (F : Type) (text : List Char) :
    ReadsLiterals build parseOperator F text ↔ ExactText build text := by
  rw [← parsesExactly_iff]
  constructor
  · exact ReadsLiterals.toParsesExactly
  · intro exactly
    refine ⟨exactly, fun bare other => ?_⟩
    cases result : (parseDurationToMicros build text).outcome with
    | value value => exact absurd ⟨value, (exactly.accepts value).mp result⟩ other
    | panic => exact absurd result exactly.returns
    | error failure => exact parseLiteral_string build parseOperator bare result

theorem unit_first_accepted :
    (¬ ∃ total, Literal "s1".toList total) ∧
      (parseLiteral .release (fun _ => (.error (unprocessableEntity "") : Except ReductError Unit)) "s1".toList :
        Eval (LiteralNode Unit Unit)).outcome = .value (.constant (.duration 1000000)) ∧
      (parseDurationToMicros .release "9223372036854775807us 1us".toList).outcome = .value Int64.minValue := by
  refine ⟨?_, by decide +kernel, by decide +kernel⟩
  rintro ⟨total, _, values, formed, _⟩
  have parts : splitWhitespace "s1".toList = ["s1".toList] := by decide +kernel
  rw [parts] at formed
  obtain ⟨value, _, first, -, -⟩ := List.forall₂_cons_left_iff.mp formed
  generalize shown : "s1".toList = part at first
  cases first with
  | @positive digits _ _ _ filled decimal _ _ =>
    cases digits with
    | nil => exact filled rfl
    | cons digit digits =>
      obtain rfl : 's' = digit := (List.cons.inj shown).1
      exact absurd (decimal 's' (by simp)) (by decide)
  | negative _ _ _ _ => exact absurd (List.cons.inj shown).1 (by decide)

end Literals

end ReductStore.Condition
