import Mathlib

set_option autoImplicit false

namespace ReductStore

theorem filter_lt_append_filter_le {numbers : List Nat} (sorted : numbers.Pairwise (· < ·)) (bound : Nat) :
    numbers.filter (· < bound) ++ numbers.filter (bound ≤ ·) = numbers := by
  induction numbers with
  | nil => rfl
  | cons first rest ih =>
    obtain ⟨least, tail⟩ := List.pairwise_cons.mp sorted
    by_cases small : first < bound
    · simp [small, Nat.not_le.mpr small, ih tail]
    · have none : rest.filter (· < bound) = [] := by
        refine List.filter_eq_nil_iff.mpr fun other member => ?_
        have := least other member
        simp
        omega
      have all : rest.filter (bound ≤ ·) = rest := by
        refine List.filter_eq_self.mpr fun other member => ?_
        have := least other member
        simp
        omega
      simp [small, Nat.not_lt.mp small, none, all]

theorem filter_lt_le_append {numbers : List Nat} (sorted : numbers.Pairwise (· < ·)) (first stop : Nat) :
    numbers.filter (· < first) ++ numbers.filter (fun number => first ≤ number ∧ number < stop) ++
      numbers.filter (fun number => first ≤ number ∧ stop ≤ number) = numbers := by
  have middle := filter_lt_append_filter_le (sorted.filter (first ≤ ·)) stop
  simp only [List.filter_filter, ← Bool.decide_and, and_comm (b := first ≤ _)] at middle
  rw [List.append_assoc, middle, filter_lt_append_filter_le sorted first]

namespace Window

variable {α : Type} (key : α → Nat) (keep : α → Bool)

def within (start stop : Nat) (items : List α) : List α :=
  items.filter fun item => decide (start ≤ key item ∧ key item < stop) && keep item

def Spent (start stop : Nat) (items : List α) : Prop := ∀ item ∈ items, key item < start ∨ stop ≤ key item

structure Passed (start stop next : Nat) (items : List α) : Prop where
  later : start ≤ next
  spent : Spent key next stop items
  bounded : ∀ bound, start ≤ bound → (∀ item ∈ items, key item < bound) → next ≤ bound

variable {key keep} {start stop middle next : Nat} {early items late : List α}

theorem mem_within {item : α} :
    item ∈ within key keep start stop items ↔ item ∈ items ∧ (start ≤ key item ∧ key item < stop) ∧ keep item = true := by
  simp [within]

@[simp] theorem within_append (first second : List α) :
    within key keep start stop (first ++ second) =
      within key keep start stop first ++ within key keep start stop second :=
  List.filter_append ..

theorem Spent.within (spent : Spent key start stop items) : within key keep start stop items = [] := by
  refine List.filter_eq_nil_iff.mpr fun item member => ?_
  have := spent item member
  simp
  omega

theorem Spent.later (spent : Spent key start stop items) (later : start ≤ next) : Spent key next stop items :=
  fun item member => (spent item member).imp_left fun before => before.trans_le later

theorem Spent.append (first : Spent key start stop early) (second : Spent key start stop late) :
    Spent key start stop (early ++ late) := fun item member =>
  (List.mem_append.mp member).elim (first item) (second item)

theorem passed_singleton {item : α} (reached : start ≤ key item) : Passed key start stop (key item + 1) [item] where
  later := reached.trans (Nat.le_succ _)
  spent := by simp [Spent]
  bounded := fun bound _ above => above item List.mem_cons_self

theorem Passed.trans (first : Passed key start stop middle early) (second : Passed key middle stop next late) :
    Passed key start stop next (early ++ late) where
  later := first.later.trans second.later
  spent := (first.spent.later second.later).append second.spent
  bounded := fun bound reached above =>
    second.bounded bound
      (first.bounded bound reached fun item member => above item (List.mem_append_left _ member))
      fun item member => above item (List.mem_append_right _ member)

theorem Passed.within_late (passed : Passed key start stop next items)
    (sorted : ∀ item ∈ items, ∀ other ∈ late, key item < key other) :
    within key keep start stop late = within key keep next stop late := by
  refine List.filter_congr fun other member => ?_
  have later := passed.later
  have bounded := passed.bounded (key other)
  have same : start ≤ key other ↔ next ≤ key other :=
    ⟨fun reached => bounded reached fun item inside => sorted item inside other member, later.trans⟩
  simp only [same]

theorem Passed.within_advance (passed : Passed key start stop next items) (spent : Spent key start stop early)
    (sorted : ∀ item ∈ items, ∀ other ∈ late, key item < key other) :
    within key keep start stop (early ++ items ++ late) =
      within key keep start stop items ++ within key keep next stop (early ++ items ++ late) := by
  have done := (spent.later passed.later).append passed.spent
  rw [within_append, within_append, spent.within, List.nil_append, passed.within_late sorted,
    within_append (early ++ items) late, done.within, List.nil_append]

end Window

end ReductStore
