import Mathlib

set_option autoImplicit false

namespace ReductStore

structure Transducer (α : Type) where
  State : Type
  state : State
  step : State → α → List α × State
  finish : State → List α × State

namespace Transducer

variable {α : Type}

def feed (machine : Transducer α) : List α → List α × Transducer α
  | [] => ([], machine)
  | item :: items =>
    let answer := machine.step machine.state item
    let later := feed { machine with state := answer.2 } items
    (answer.1 ++ later.1, later.2)

def complete (machine : Transducer α) (items : List α) : List α :=
  let fed := machine.feed items
  fed.1 ++ (fed.2.finish fed.2.state).1

def staged (machines : List (Transducer α)) (items : List α) : List α :=
  machines.foldl (fun items machine => machine.complete items) items

def push : List (Transducer α) → List α → List α × List (Transducer α)
  | [], items => (items, [])
  | machine :: machines, items =>
    let fed := machine.feed items
    let later := push machines fed.1
    (later.1, fed.2 :: later.2)

theorem length_push (machines : List (Transducer α)) (items : List α) :
    (push machines items).2.length = machines.length := by
  induction machines generalizing items with
  | nil => rfl
  | cons machine machines ih => simp [push, ih]

def drain : List (Transducer α) → List α
  | [] => []
  | machine :: machines =>
    let later := push machines (machine.finish machine.state).1
    later.1 ++ drain later.2
termination_by machines => machines.length
decreasing_by simp [length_push]

theorem feed_append (machine : Transducer α) (first second : List α) :
    machine.feed (first ++ second) =
      ((machine.feed first).1 ++ ((machine.feed first).2.feed second).1, ((machine.feed first).2.feed second).2) := by
  induction first generalizing machine with
  | nil => rfl
  | cons item first ih => simp [feed, ih]

theorem push_append (machines : List (Transducer α)) (first second : List α) :
    push machines (first ++ second) =
      ((push machines first).1 ++ (push (push machines first).2 second).1, (push (push machines first).2 second).2) := by
  induction machines generalizing first second with
  | nil => rfl
  | cons machine machines ih => simp [push, feed_append, ih]

theorem push_nil (machines : List (Transducer α)) : push machines [] = ([], machines) := by
  induction machines with
  | nil => rfl
  | cons machine machines ih => simp [push, feed, ih]

theorem push_drain (machines : List (Transducer α)) (items : List α) :
    (push machines items).1 ++ drain (push machines items).2 = staged machines items := by
  induction machines generalizing items with
  | nil => simp [push, drain, staged]
  | cons machine machines ih =>
    -- the rest of the first machine is the last item of its successors' input
    have rest := ih (machine.complete items)
    rw [complete, push_append] at rest
    rw [staged, List.foldl_cons, ← staged, complete, ← rest]
    simp [push, drain]

end Transducer

end ReductStore
