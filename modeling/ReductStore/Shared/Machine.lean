import Mathlib

set_option autoImplicit false

namespace ReductStore

/-- The states that a machine reaches by operations which are allowed where they are made. -/
inductive Runs {State Operation : Type} (apply : State → Operation → State) (allowed : State → Operation → Prop)
    (start : State) : State → Prop where
  | start : Runs apply allowed start start
  | step {state : State} (before : Runs apply allowed start state) (operation : Operation)
      (permitted : allowed state operation) : Runs apply allowed start (apply state operation)

namespace Runs

variable {State Operation : Type} {apply : State → Operation → State} {allowed : State → Operation → Prop}
  {start state : State}

theorem invariant (run : Runs apply allowed start state) (holds : State → Prop) (initial : holds start)
    (step : ∀ current operation, holds current → allowed current operation → holds (apply current operation)) :
    holds state := by
  induction run with
  | start => exact initial
  | step _ operation permitted ih => exact step _ operation ih permitted

theorem one (operation : Operation) (permitted : allowed start operation) (same : apply start operation = state) :
    Runs apply allowed start state := same ▸ .step .start operation permitted

theorem trans {middle : State} (first : Runs apply allowed start middle) (second : Runs apply allowed middle state) :
    Runs apply allowed start state := by
  induction second with
  | start => exact first
  | step _ operation permitted ih => exact .step ih operation permitted

theorem of_list (operations : List Operation) (start : State)
    (permitted : ∀ index (inside : index < operations.length),
      allowed ((operations.take index).foldl apply start) (operations.get ⟨index, inside⟩)) :
    Runs apply allowed start (operations.foldl apply start) := by
  induction operations using List.reverseRecOn with
  | nil => exact .start
  | append_singleton front last ih =>
    rw [List.foldl_append]
    refine .step (ih fun index inside => ?_) last ?_
    · have earlier := permitted index (by simp; omega)
      simp only [List.take_append_of_le_length inside.le, List.get_eq_getElem, List.getElem_append_left inside] at earlier
      exact earlier
    · simpa using permitted front.length (by simp)

theorem linearizes {Model Call : Type} (run : Runs apply allowed start state) (completed : State → List Call)
    (execute : Model → Call → Model) (related : State → Model → Prop) {model : Model}
    (none : completed start = []) (initial : related start model)
    (step : ∀ current operation model, related current model → allowed current operation →
      ∃ calls, completed (apply current operation) = completed current ++ calls ∧
        related (apply current operation) (calls.foldl execute model)) :
    related state ((completed state).foldl execute model) := by
  induction run with
  | start =>
    rw [none]
    exact initial
  | step _ operation permitted ih =>
    obtain ⟨calls, longer, kept⟩ := step _ operation _ ih permitted
    rw [longer, List.foldl_append]
    exact kept

end Runs

section Replies

variable {State Model Call Reply : Type}

def replies (perform : State → Call → Reply × State) : State → List Call → List Reply
  | _, [] => []
  | state, call :: calls =>
    let (reply, state) := perform state call
    reply :: replies perform state calls

theorem replies_eq (perform : State → Call → Reply × State) (answer : Model → Call → Reply × Model)
    (related : State → Model → Prop) (allowed : Call → Prop)
    (simulates : ∀ state model call, related state model → allowed call →
      (perform state call).1 = (answer model call).1 ∧ related (perform state call).2 (answer model call).2)
    (calls : List Call) (state : State) (model : Model) (start : related state model)
    (permitted : ∀ call ∈ calls, allowed call) :
    replies perform state calls = replies answer model calls := by
  induction calls generalizing state model with
  | nil => rfl
  | cons call calls ih =>
    obtain ⟨same, next⟩ := simulates state model call start (permitted call List.mem_cons_self)
    have rest := ih _ _ next fun later member => permitted later (List.mem_cons_of_mem call member)
    simp only [replies]
    rw [same, rest]

def afterCalls (perform : State → Call → Reply × State) (state : State) (calls : List Call) : State :=
  calls.foldl (fun state call => (perform state call).2) state

theorem afterCalls_related (perform : State → Call → Reply × State) (answer : Model → Call → Reply × Model)
    (related : State → Model → Prop) (allowed : Call → Prop)
    (simulates : ∀ state model call, related state model → allowed call →
      related (perform state call).2 (answer model call).2)
    (calls : List Call) (state : State) (model : Model) (start : related state model)
    (permitted : ∀ call ∈ calls, allowed call) :
    related (afterCalls perform state calls) (afterCalls answer model calls) := by
  induction calls generalizing state model with
  | nil => exact start
  | cons call calls ih =>
    refine ih _ _ (simulates state model call start (permitted call List.mem_cons_self)) ?_
    exact fun later member => permitted later (List.mem_cons_of_mem call member)

end Replies

end ReductStore
