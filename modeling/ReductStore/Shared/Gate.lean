import Mathlib

set_option autoImplicit false

namespace ReductStore.Gate

variable {State Item : Type} (step : State → Item → Bool × State)

def after (state : State) (items : List Item) : State := items.foldl (fun state item => (step state item).2) state

def passing : State → List Item → List Item
  | _, [] => []
  | state, item :: items =>
    if (step state item).1 then item :: passing (step state item).2 items else passing (step state item).2 items

variable {step}

@[simp] theorem after_nil (state : State) : after step state [] = state := rfl

@[simp] theorem after_cons (state : State) (item : Item) (items : List Item) :
    after step state (item :: items) = after step (step state item).2 items := rfl

@[simp] theorem passing_nil (state : State) : passing step state [] = [] := rfl

theorem after_append (state : State) (first second : List Item) :
    after step state (first ++ second) = after step (after step state first) second := List.foldl_append

theorem passing_append (state : State) (first second : List Item) :
    passing step state (first ++ second) = passing step state first ++ passing step (after step state first) second := by
  induction first generalizing state with
  | nil => rfl
  | cons item items ih =>
    simp only [List.cons_append, passing, after_cons, ih]
    split <;> rfl

theorem passing_sublist (state : State) (items : List Item) : (passing step state items).Sublist items := by
  induction items generalizing state with
  | nil => exact .slnil
  | cons item items ih =>
    rw [passing]
    split
    · exact (ih _).cons_cons item
    · exact (ih _).cons item

end ReductStore.Gate
