import ReductStore.Shared.File

set_option autoImplicit false

namespace ReductStore.Placement

variable {α : Type}

def place : Nat → List (α × Nat) → List (α × Nat × Nat)
  | _, [] => []
  | offset, (key, length) :: rest => (key, offset, offset + length) :: place (offset + length) rest

def total (items : List (α × Nat)) : Nat := (items.map Prod.snd).sum

theorem place_bounds (items : List (α × Nat)) (offset : Nat) (slot : α × Nat × Nat)
    (member : slot ∈ place offset items) :
    offset ≤ slot.2.1 ∧ slot.2.1 ≤ slot.2.2 ∧ slot.2.2 ≤ offset + total items := by
  induction items generalizing offset with
  | nil => simp [place] at member
  | cons item rest ih =>
    obtain ⟨key, length⟩ := item
    have sum : total ((key, length) :: rest) = length + total rest := by simp [total]
    rcases List.mem_cons.mp member with rfl | later
    · dsimp only
      omega
    · have := ih (offset + length) later
      omega

theorem place_keys (items : List (α × Nat)) (offset : Nat) :
    (place offset items).map Prod.fst = items.map Prod.fst := by
  induction items generalizing offset with
  | nil => rfl
  | cons item rest ih =>
    obtain ⟨key, length⟩ := item
    simp [place, ih]

theorem place_length (items : List (α × Nat)) (offset : Nat) (slot : α × Nat × Nat)
    (member : slot ∈ place offset items) : (slot.1, slot.2.2 - slot.2.1) ∈ items := by
  induction items generalizing offset with
  | nil => simp [place] at member
  | cons item rest ih =>
    obtain ⟨key, length⟩ := item
    rcases List.mem_cons.mp member with rfl | later
    · simp
    · exact List.mem_cons_of_mem _ (ih (offset + length) later)

theorem place_apart (items : List (α × Nat)) (offset : Nat) (first second : α × Nat × Nat)
    (firstMember : first ∈ place offset items) (secondMember : second ∈ place offset items)
    (different : first.1 ≠ second.1) : first.2.2 ≤ second.2.1 ∨ second.2.2 ≤ first.2.1 := by
  induction items generalizing offset with
  | nil => simp [place] at firstMember
  | cons item rest ih =>
    obtain ⟨key, length⟩ := item
    rcases List.mem_cons.mp firstMember with rfl | firstLater <;>
      rcases List.mem_cons.mp secondMember with rfl | secondLater
    · exact absurd rfl different
    · exact Or.inl (place_bounds rest (offset + length) second secondLater).1
    · exact Or.inr (place_bounds rest (offset + length) first firstLater).1
    · exact ih (offset + length) firstLater secondLater

def contents (items : List (α × List UInt8)) : File := items.flatMap Prod.snd

def lengths (items : List (α × List UInt8)) : List (α × Nat) := items.map (fun item => (item.1, item.2.length))

theorem range_contents (items : List (α × List UInt8)) (written tail : File) (slot : α × Nat × Nat)
    (member : slot ∈ place written.length (lengths items)) :
    (slot.1, File.range (written ++ (contents items ++ tail)) slot.2.1 slot.2.2) ∈ items := by
  induction items generalizing written with
  | nil => simp [lengths, place] at member
  | cons item rest ih =>
    obtain ⟨key, bytes⟩ := item
    rcases List.mem_cons.mp member with rfl | later
    · have here : File.range (written ++ (bytes ++ (contents rest ++ tail))) written.length
          (written.length + bytes.length) = bytes := by
        simp [File.range, List.take_append]
      simp [contents, List.append_assoc] at here ⊢
      simp [here]
    · have shifted : slot ∈ place (written ++ bytes).length (lengths rest) := by
        simpa [lengths] using later
      have found := ih (written ++ bytes) shifted
      simp only [contents, List.flatMap_cons, List.append_assoc] at found ⊢
      exact List.mem_cons_of_mem _ found

end ReductStore.Placement
