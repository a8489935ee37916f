import Mathlib

set_option autoImplicit false

namespace ReductStore.Pieces

section Predicate

variable {α : Type*} {separates : α → Bool} {text piece : List α}

theorem of_mem_splitOnP (member : piece ∈ text.splitOnP separates) :
    ∀ symbol ∈ piece, symbol ∈ text ∧ separates symbol = false := by
  induction text generalizing piece with
  | nil =>
    rw [List.splitOnP_nil, List.mem_singleton] at member
    simp [member]
  | cons symbol text ih =>
    have within {later : List α} (inside : later ∈ text.splitOnP separates) :
        ∀ other ∈ later, other ∈ symbol :: text ∧ separates other = false :=
      fun other mem => ⟨List.mem_cons_of_mem _ (ih inside other mem).1, (ih inside other mem).2⟩
    rw [List.splitOnP_cons_eq_if_modifyHead] at member
    split_ifs at member with here
    · rcases List.mem_cons.mp member with rfl | later
      · simp
      · exact within later
    · -- the first piece grows by a symbol that does not separate
      cases split : text.splitOnP separates with
      | nil => exact absurd split (List.splitOnP_ne_nil _ _)
      | cons first others =>
        rw [split] at within
        rw [split, List.modifyHead_cons] at member
        rcases List.mem_cons.mp member with rfl | later
        · refine List.forall_mem_cons.mpr ⟨⟨List.mem_cons_self, by simpa using here⟩, ?_⟩
          exact within List.mem_cons_self
        · exact within (List.mem_cons_of_mem _ later)

theorem clear_of_mem_splitOnP (member : piece ∈ text.splitOnP separates) : ∀ symbol ∈ piece, separates symbol = false :=
  fun symbol inside => (of_mem_splitOnP member symbol inside).2

end Predicate

section Separator

variable {α : Type*} [BEq α] [LawfulBEq α] {separator : α} {text piece : List α}

theorem clear_of_mem_splitOn (member : piece ∈ text.splitOn separator) : separator ∉ piece := by
  intro inside
  simpa using clear_of_mem_splitOnP member separator inside

theorem eq_append_flatMap_of_splitOn {first : List α} {others : List (List α)}
    (split : text.splitOn separator = first :: others) : text = first ++ others.flatMap (separator :: ·) := by
  have whole : [separator].intercalate (text.splitOn separator) = text := List.intercalate_splitOn separator
  rw [← whole, split]
  clear whole split
  induction others generalizing first with
  | nil => simp [List.intercalate]
  | cons second others ih => rw [List.intercalate_cons_cons, ih]; simp

theorem splitOn_injective {other : List α} (same : text.splitOn separator = other.splitOn separator) : text = other := by
  have whole : [separator].intercalate (text.splitOn separator) = text := List.intercalate_splitOn separator
  rw [← whole, same, List.intercalate_splitOn]

omit [BEq α] [LawfulBEq α] in
theorem intercalate_concat_append (glue last more : List α) (parts : List (List α)) :
    glue.intercalate (parts ++ [last ++ more]) = glue.intercalate (parts ++ [last]) ++ more := by
  induction parts with
  | nil => simp
  | cons part parts ih =>
    cases parts with
    | nil => simp [List.intercalate_cons_cons]
    | cons next later => simpa [List.intercalate_cons_cons] using ih

theorem splitOn_append_clear {last more : List α} {parts : List (List α)}
    (split : text.splitOn separator = parts ++ [last]) (clear : separator ∉ more) :
    (text ++ more).splitOn separator = parts ++ [last ++ more] := by
  have pieces : ∀ piece ∈ parts ++ [last], separator ∉ piece := fun piece member => clear_of_mem_splitOn (split ▸ member)
  have whole : [separator].intercalate (text.splitOn separator) = text := List.intercalate_splitOn separator
  rw [← whole, split, ← intercalate_concat_append, List.splitOn_intercalate]
  · simp only [List.forall_mem_append, List.forall_mem_singleton] at pieces ⊢
    exact ⟨pieces.1, by simp [pieces.2, clear]⟩
  · simp

end Separator

end ReductStore.Pieces
