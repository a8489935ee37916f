import Mathlib
import ReductStore.Shared.Traced

set_option autoImplicit false

namespace ReductStore.Condition

/-- In a debug build an overflow is a panic, in a release build it wraps around. -/
inductive Build where
  | debug
  | release
  deriving DecidableEq

inductive IntOp where
  | add (left right : Int64)
  | sub (left right : Int64)
  | mul (left right : Int64)
  | abs (value : Int64)
  | div (dividend divisor : Int64)
  deriving DecidableEq

def InI64 (value : Int) : Prop := -2 ^ 63 ≤ value ∧ value < 2 ^ 63

instance (value : Int) : Decidable (InI64 value) := inferInstanceAs (Decidable (_ ∧ _))

def IntOp.Traps (build : Build) : IntOp → Prop
  | .add left right => build = .debug ∧ ¬ InI64 (left.toInt + right.toInt)
  | .sub left right => build = .debug ∧ ¬ InI64 (left.toInt - right.toInt)
  | .mul left right => build = .debug ∧ ¬ InI64 (left.toInt * right.toInt)
  | .abs value => build = .debug ∧ value = Int64.minValue
  | .div dividend divisor => divisor = 0 ∨ dividend = Int64.minValue ∧ divisor = -1

instance (build : Build) (operation : IntOp) : Decidable (operation.Traps build) := by
  cases operation <;> unfold IntOp.Traps <;> infer_instance

namespace Build

variable {ε : Type}

def perform {α : Type} (build : Build) (operation : IntOp) (result : α) : Traced IntOp ε α :=
  Traced.perform operation (if operation.Traps build then none else some result)

def add (build : Build) (left right : Int64) : Traced IntOp ε Int64 := build.perform (.add left right) (left + right)

def sub (build : Build) (left right : Int64) : Traced IntOp ε Int64 := build.perform (.sub left right) (left - right)

def mul (build : Build) (left right : Int64) : Traced IntOp ε Int64 := build.perform (.mul left right) (left * right)

def abs (build : Build) (value : Int64) : Traced IntOp ε Int64 := build.perform (.abs value) value.abs

def div (build : Build) (dividend divisor : Int64) : Traced IntOp ε Int64 :=
  build.perform (.div dividend divisor) (dividend / divisor)

theorem perform_value {α : Type} {build : Build} {operation : IntOp} {result : α} (fine : ¬ operation.Traps build) :
    (build.perform operation result : Traced IntOp ε α).outcome = .value result := by
  simp [perform, fine, Traced.perform]

theorem perform_panic {α : Type} {build : Build} {operation : IntOp} {result : α} (traps : operation.Traps build) :
    (build.perform operation result : Traced IntOp ε α).outcome = .panic := by
  simp [perform, traps, Traced.perform]

theorem add_value {build : Build} {left right : Int64} (fits : build = .debug → InI64 (left.toInt + right.toInt)) :
    (build.add left right : Traced IntOp ε Int64).outcome = .value (left + right) :=
  perform_value fun (traps : _ ∧ _) => traps.2 (fits traps.1)

theorem sub_value {build : Build} {left right : Int64} (fits : build = .debug → InI64 (left.toInt - right.toInt)) :
    (build.sub left right : Traced IntOp ε Int64).outcome = .value (left - right) :=
  perform_value fun (traps : _ ∧ _) => traps.2 (fits traps.1)

theorem mul_value {build : Build} {left right : Int64} (fits : build = .debug → InI64 (left.toInt * right.toInt)) :
    (build.mul left right : Traced IntOp ε Int64).outcome = .value (left * right) :=
  perform_value fun (traps : _ ∧ _) => traps.2 (fits traps.1)

theorem abs_value {build : Build} {value : Int64} (other : build = .debug → value ≠ Int64.minValue) :
    (build.abs value : Traced IntOp ε Int64).outcome = .value value.abs :=
  perform_value fun (traps : _ ∧ _) => other traps.1 traps.2

theorem div_value {build : Build} {dividend divisor : Int64} (positive : 0 < divisor.toInt) :
    (build.div dividend divisor : Traced IntOp ε Int64).outcome = .value (dividend / divisor) := by
  refine perform_value fun (traps : _ ∨ _) => ?_
  rcases traps with rfl | ⟨_, rfl⟩ <;> revert positive <;> decide

theorem add_panic {left right : Int64} (excess : ¬ InI64 (left.toInt + right.toInt)) :
    (Build.debug.add left right : Traced IntOp ε Int64).outcome = .panic := perform_panic ⟨rfl, excess⟩

theorem mul_panic {left right : Int64} (excess : ¬ InI64 (left.toInt * right.toInt)) :
    (Build.debug.mul left right : Traced IntOp ε Int64).outcome = .panic := perform_panic ⟨rfl, excess⟩

end Build

section Range

theorem inI64_toInt (value : Int64) : InI64 value.toInt := by
  have low := value.le_toInt
  have high := value.toInt_lt
  exact ⟨by omega, by omega⟩

theorem toInt_ofInt {value : Int} (fits : InI64 value) : (Int64.ofInt value).toInt = value :=
  Int64.toInt_ofInt_of_le (by simpa using fits.1) (by simpa using fits.2)

theorem bmod_eq {value : Int} (fits : InI64 value) : value.bmod (2 ^ 64) = value := by
  have low := fits.1
  have high := fits.2
  exact Int.bmod_eq_of_le (by omega) (by omega)

theorem toInt_add {left right : Int64} (fits : InI64 (left.toInt + right.toInt)) :
    (left + right).toInt = left.toInt + right.toInt := by rw [Int64.toInt_add, bmod_eq fits]

theorem toInt_sub {left right : Int64} (fits : InI64 (left.toInt - right.toInt)) :
    (left - right).toInt = left.toInt - right.toInt := by rw [Int64.toInt_sub, bmod_eq fits]

theorem toInt_mul {left right : Int64} (fits : InI64 (left.toInt * right.toInt)) :
    (left * right).toInt = left.toInt * right.toInt := by rw [Int64.toInt_mul, bmod_eq fits]

theorem toInt_div {dividend divisor : Int64} (fits : InI64 (dividend.toInt.tdiv divisor.toInt)) :
    (dividend / divisor).toInt = dividend.toInt.tdiv divisor.toInt := by rw [Int64.toInt_div, bmod_eq fits]

theorem toInt_abs {value : Int64} (other : value ≠ Int64.minValue) : value.abs.toInt = value.toInt.natAbs := by
  have proper : value.toBitVec ≠ BitVec.intMin 64 := by
    intro same
    exact other (Int64.toBitVec_inj.mp (same.trans (by decide)))
  change value.toBitVec.abs.toInt = value.toBitVec.toInt.natAbs
  exact BitVec.toInt_abs_eq_natAbs_of_ne_intMin proper

end Range

end ReductStore.Condition
