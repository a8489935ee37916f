import ReductStore.Condition.Integer

set_option autoImplicit false

namespace ReductStore

open Condition

def wrapI64 (value : Int) : Int := (value + 2 ^ 63) % 2 ^ 64 - 2 ^ 63

def asI64 (value : Nat) : Int := wrapI64 value

def asU64 (value : Int) : Nat := (value % 2 ^ 64).toNat

theorem asI64_small {value : Nat} (small : value < 2 ^ 63) : asI64 value = value := by
  rw [asI64, wrapI64]
  omega

theorem asU64_small {value : Int} (positive : 0 ≤ value) (small : value < 2 ^ 63) : (asU64 value : Int) = value := by
  rw [asU64]
  omega

namespace Condition.Build

def addU64 (build : Build) (left right : Nat) : Option Nat :=
  if left + right < 2 ^ 64 then some (left + right)
  else if build = .debug then none else some ((left + right) % 2 ^ 64)

def subU64 (build : Build) (left right : Nat) : Option Nat :=
  if right ≤ left then some (left - right)
  else if build = .debug then none else some ((2 ^ 64 + left - right) % 2 ^ 64)

def addI64 (build : Build) (left right : Int) : Option Int :=
  if InI64 (left + right) then some (left + right)
  else if build = .debug then none else some (wrapI64 (left + right))

theorem addU64_small {left right : Nat} (small : left + right < 2 ^ 64) (build : Build) :
    build.addU64 left right = some (left + right) := if_pos small

theorem subU64_small {left right : Nat} (small : right ≤ left) (build : Build) :
    build.subU64 left right = some (left - right) := if_pos small

theorem addI64_small {left right : Int} (small : InI64 (left + right)) (build : Build) :
    build.addI64 left right = some (left + right) := if_pos small

theorem addI64_panic {left right : Int} (large : ¬ InI64 (left + right)) : Build.debug.addI64 left right = none := by
  rw [addI64, if_neg large, if_pos rfl]

theorem addU64_lt {build : Build} {left right sum : Nat} (added : build.addU64 left right = some sum) : sum < 2 ^ 64 := by
  rw [addU64] at added
  split_ifs at added with small
  · rwa [← Option.some.inj added]
  · rw [← Option.some.inj added]
    exact Nat.mod_lt _ (by decide)

end Condition.Build

end ReductStore
