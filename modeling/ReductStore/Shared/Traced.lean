import Mathlib

set_option autoImplicit false

namespace ReductStore

inductive Outcome (ε α : Type) where
  | value (result : α)
  | error (failure : ε)
  | panic
  deriving DecidableEq

structure Traced (ω ε α : Type) where
  operations : List ω
  outcome : Outcome ε α

namespace Traced

variable {ω ε α β : Type}

protected def pure (result : α) : Traced ω ε α := ⟨[], .value result⟩

protected def bind (first : Traced ω ε α) (next : α → Traced ω ε β) : Traced ω ε β :=
  match first.outcome with
  | .value result => ⟨first.operations ++ (next result).operations, (next result).outcome⟩
  | .error failure => ⟨first.operations, .error failure⟩
  | .panic => ⟨first.operations, .panic⟩

instance : Monad (Traced ω ε) where
  pure := Traced.pure
  bind := Traced.bind

def fail (failure : ε) : Traced ω ε α := ⟨[], .error failure⟩

def perform (operation : ω) : Option α → Traced ω ε α
  | some result => ⟨[operation], .value result⟩
  | none => ⟨[operation], .panic⟩

def attempt {ε' : Type} (computation : Traced ω ε α) : Traced ω ε' (Except ε α) :=
  ⟨computation.operations, match computation.outcome with
    | .value result => .value (.ok result)
    | .error failure => .value (.error failure)
    | .panic => .panic⟩

section Bind

variable {first : Traced ω ε α} {next : α → Traced ω ε β}

theorem outcome_pure (result : α) : (pure result : Traced ω ε α).outcome = .value result := rfl

theorem outcome_bind_value {result : α} (ends : first.outcome = .value result) :
    (first >>= next).outcome = (next result).outcome := by
  change (Traced.bind first next).outcome = _
  simp [Traced.bind, ends]

theorem outcome_bind_error {failure : ε} (ends : first.outcome = .error failure) :
    (first >>= next).outcome = .error failure := by
  change (Traced.bind first next).outcome = _
  simp [Traced.bind, ends]

theorem outcome_bind_panic (ends : first.outcome = .panic) : (first >>= next).outcome = .panic := by
  change (Traced.bind first next).outcome = _
  simp [Traced.bind, ends]

theorem bind_eq_value {result : β} (ends : (first >>= next).outcome = .value result) :
    ∃ middle, first.outcome = .value middle ∧ (next middle).outcome = .value result := by
  cases done : first.outcome with
  | value middle => exact ⟨middle, rfl, by rwa [outcome_bind_value done] at ends⟩
  | error failure => rw [outcome_bind_error done] at ends; cases ends
  | panic => rw [outcome_bind_panic done] at ends; cases ends

end Bind

end Traced

end ReductStore
