import Mathlib

set_option autoImplicit false

namespace ReductStore.Ring

variable {α : Type}

def contents (cells : Nat → α) (slots first count : Nat) : List α :=
  (List.range count).map fun offset => cells ((first + offset) % slots)

theorem contents_congr (cells other : Nat → α) (slots first count : Nat)
    (same : ∀ offset < count, cells ((first + offset) % slots) = other ((first + offset) % slots)) :
    contents cells slots first count = contents other slots first count := by
  refine List.map_congr_left fun offset member => ?_
  exact same offset (List.mem_range.mp member)

theorem slot_ne (slots first : Nat) {near far : Nat} (order : near < far) (within : far < near + slots) :
    (first + near) % slots ≠ (first + far) % slots := by
  intro same
  have equal := Nat.ModEq.add_left_cancel' first (show first + near ≡ first + far [MOD slots] from same)
  have divides := (Nat.modEq_iff_dvd' order.le).mp equal
  have bounded := Nat.le_of_dvd (by omega) divides
  omega

theorem contents_push (cells other : Nat → α) (slots first count : Nat) (room : count < slots)
    (kept : ∀ slot < slots, slot ≠ (first + count) % slots → other slot = cells slot) :
    contents other slots first (count + 1) =
      contents cells slots first count ++ [other ((first + count) % slots)] := by
  rw [contents, List.range_succ, List.map_append, List.map_singleton]
  congr 1
  refine contents_congr other cells slots first count fun offset inside => ?_
  exact kept _ (Nat.mod_lt _ (by omega)) (slot_ne slots first inside (by omega))

theorem contents_pop (cells : Nat → α) (slots first count : Nat) :
    contents cells slots first (count + 1) =
      cells (first % slots) :: contents cells slots ((first + 1) % slots) count := by
  rw [contents, List.range_succ_eq_map, List.map_cons, Nat.add_zero, List.map_map]
  congr 1
  refine List.map_congr_left fun offset _ => ?_
  have shift : ((first + 1) % slots + offset) % slots = (first + (offset + 1)) % slots := by
    rw [Nat.mod_add_mod]
    congr 1
    omega
  simp only [Function.comp_apply, Nat.succ_eq_add_one, shift]

theorem next_slot (slots slot : Nat) (inside : slot < slots) :
    (if slot + 1 ≥ slots then 0 else slot + 1) = (slot + 1) % slots := by
  by_cases last : slot + 1 ≥ slots
  · have same : slot + 1 = slots := by omega
    rw [if_pos last, same, Nat.mod_self]
  · rw [if_neg last, Nat.mod_eq_of_lt (by omega)]

theorem end_eq_first (slots first count : Nat) (inside : first < slots) (room : count < slots) :
    (first + count) % slots = first ↔ count = 0 := by
  constructor
  · intro same
    by_contra some
    have apart := slot_ne slots first (Nat.pos_of_ne_zero some) (by omega)
    rw [Nat.add_zero, Nat.mod_eq_of_lt inside] at apart
    exact apart same.symm
  · rintro rfl
    exact Nat.mod_eq_of_lt inside

end ReductStore.Ring
