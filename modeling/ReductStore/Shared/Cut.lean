import ReductStore.Shared.File

set_option autoImplicit false

namespace ReductStore

def cut (limit first last : Nat) : List (Nat × Nat) :=
  if first < last ∧ 0 < limit then (first, min (last - first) limit) :: cut limit (first + limit) last else []
termination_by last - first

variable {limit first last : Nat}

theorem cut_empty (empty : last ≤ first) : cut limit first last = [] := by
  rw [cut, if_neg (by omega)]

theorem cut_cons (nonempty : first < last) (positive : 0 < limit) :
    cut limit first last = (first, min (last - first) limit) :: cut limit (first + limit) last := by
  rw [cut, if_pos ⟨nonempty, positive⟩]

theorem cut_ne_nil (nonempty : first < last) (positive : 0 < limit) : cut limit first last ≠ [] := by
  rw [cut_cons nonempty positive]
  exact List.cons_ne_nil _ _

theorem mem_cut {part : Nat × Nat} (member : part ∈ cut limit first last) :
    first ≤ part.1 ∧ 0 < part.2 ∧ part.1 + part.2 ≤ last := by
  fun_induction cut limit first last with
  | case1 first inside ih =>
    rcases List.mem_cons.mp member with rfl | member
    · dsimp only
      omega
    · have later := ih member
      omega
  | case2 first outside => exact absurd member List.not_mem_nil

theorem sum_cut (positive : 0 < limit) : ((cut limit first last).map Prod.snd).sum = last - first := by
  fun_induction cut limit first last with
  | case1 first inside ih =>
    rw [List.map_cons, List.sum_cons, ih]
    dsimp only
    omega
  | case2 first outside =>
    simp only [List.map_nil, List.sum_nil]
    omega

theorem File.range_append (file : File) {first middle last : Nat} (lower : first ≤ middle) (upper : middle ≤ last) :
    File.range file first middle ++ File.range file middle last = File.range file first last := by
  unfold File.range
  have front : (file.take last).take middle = file.take middle := by rw [List.take_take, min_eq_left upper]
  rw [← front, ← List.drop_take_append_drop (file.take last) first (middle - first)]
  congr 1
  · rw [List.drop_take]
  · rw [Nat.add_sub_cancel' lower]

theorem flatten_cut (first last : Nat) (file : File) (positive : 0 < limit) :
    ((cut limit first last).map fun part => File.range file part.1 (part.1 + part.2)).flatten =
      File.range file first last := by
  fun_induction cut limit first last with
  | case1 first inside ih =>
    rw [List.map_cons, List.flatten_cons, ih]
    by_cases more : first + limit ≤ last
    · rw [min_eq_right (by omega)]
      exact File.range_append file (Nat.le_add_right first limit) more
    · have nothing : File.range file (first + limit) last = [] := by
        rw [File.range, List.drop_eq_nil_iff, List.length_take]
        omega
      rw [nothing, List.append_nil]
      dsimp only
      rw [min_eq_left (by omega), Nat.add_sub_cancel' (by omega)]
  | case2 first outside =>
    have nothing : File.range file first last = [] := by
      rw [File.range, List.drop_eq_nil_iff, List.length_take]
      omega
    rw [nothing]
    rfl

end ReductStore
