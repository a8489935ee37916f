import ReductStore.Shared.TreeMap

set_option autoImplicit false

namespace ReductStore.KeyTable

open Std TreeMap

variable {α β γ : Type} (key : α → Nat) (value : α → β) (content : α → List γ)

def table (items : List α) : ExtTreeMap Nat β :=
  items.foldr (fun item map => map.insert (key item) (value item)) ∅

def firsts (items : List α) : List α :=
  items.foldr (fun item kept => item :: kept.filter fun other => key other ≠ key item) []

def Distinguished (items : List α) : Prop :=
  items.Pairwise fun item later => key item = key later → content later = []

theorem mem_of_mem_firsts (items : List α) (item : α) (member : item ∈ firsts key items) : item ∈ items := by
  induction items with
  | nil => exact member
  | cons head rest ih =>
    rcases List.mem_cons.mp member with rfl | inRest
    · exact List.mem_cons_self
    · exact List.mem_cons_of_mem _ (ih (List.mem_filter.mp inRest).1)

theorem get_table (items : List α) (time : Nat) (found : β) :
    (table key value items)[time]? = some found ↔ ∃ item ∈ firsts key items, key item = time ∧ value item = found := by
  induction items with
  | nil => simp [table, firsts]
  | cons head rest ih =>
    have step : (table key value (head :: rest))[time]? =
        if time = key head then some (value head) else (table key value rest)[time]? := get_insert _ _ _ _
    have kept : firsts key (head :: rest) =
        head :: (firsts key rest).filter fun other => key other ≠ key head := rfl
    rw [step, kept]
    by_cases same : time = key head
    · subst same
      constructor
      · intro present
        rw [if_pos rfl, Option.some.injEq] at present
        exact ⟨head, List.mem_cons_self, rfl, present⟩
      · rintro ⟨item, member, equal, rfl⟩
        rcases List.mem_cons.mp member with rfl | inRest
        · rw [if_pos rfl]
        · have apart : key item ≠ key head := by simpa using (List.mem_filter.mp inRest).2
          exact absurd equal apart
    · rw [if_neg same, ih]
      constructor
      · rintro ⟨item, member, rfl, rfl⟩
        exact ⟨item, List.mem_cons_of_mem _ (List.mem_filter.mpr ⟨member, by simpa using same⟩), rfl, rfl⟩
      · rintro ⟨item, member, rfl, rfl⟩
        rcases List.mem_cons.mp member with rfl | inRest
        · exact absurd rfl same
        · exact ⟨item, (List.mem_filter.mp inRest).1, rfl, rfl⟩

theorem contains_table (items : List α) (time : Nat) :
    time ∈ table key value items ↔ ∃ item ∈ items, key item = time := by
  induction items with
  | nil => simp [table]
  | cons head rest ih =>
    have step : table key value (head :: rest) = (table key value rest).insert (key head) (value head) := rfl
    rw [step, ExtTreeMap.mem_insert, ih]
    simp

theorem firsts_sorted (items : List α) (sorted : items.Pairwise fun item later => key item ≤ key later) :
    (firsts key items).Pairwise fun item later => key item < key later := by
  induction items with
  | nil => exact List.Pairwise.nil
  | cons head rest ih =>
    obtain ⟨before, sorted⟩ := List.pairwise_cons.mp sorted
    refine List.pairwise_cons.mpr ⟨fun item member => ?_, (ih sorted).filter _⟩
    obtain ⟨inRest, differs⟩ := List.mem_filter.mp member
    have order := before item (mem_of_mem_firsts key rest item inRest)
    have apart : key item ≠ key head := by simpa using differs
    omega

theorem content_firsts (items : List α) (distinguished : Distinguished key content items) :
    ((firsts key items).map content).flatten = (items.map content).flatten := by
  induction items with
  | nil => rfl
  | cons head rest ih =>
    obtain ⟨superseded, distinguished⟩ := List.pairwise_cons.mp distinguished
    have dropped (kept : List α) (inRest : ∀ item ∈ kept, item ∈ rest) :
        ((kept.filter fun other => key other ≠ key head).map content).flatten = (kept.map content).flatten := by
      induction kept with
      | nil => rfl
      | cons item kept ihKept =>
        have later := ihKept fun other member => inRest other (List.mem_cons_of_mem _ member)
        by_cases same : key item = key head
        · have empty := superseded item (inRest item List.mem_cons_self) same.symm
          rw [List.filter_cons_of_neg (by simpa using same), later, List.map_cons, empty]
          rfl
        · rw [List.filter_cons_of_pos (by simpa using same), List.map_cons, List.map_cons, List.flatten_cons,
            List.flatten_cons, later]
    have kept := dropped (firsts key rest) fun item member => mem_of_mem_firsts key rest item member
    have step : firsts key (head :: rest) =
        head :: (firsts key rest).filter fun other => key other ≠ key head := rfl
    rw [step, List.map_cons, List.map_cons, List.flatten_cons, List.flatten_cons, kept, ih distinguished]

theorem exists_first (items : List α) (distinguished : Distinguished key content items) (item : α)
    (member : item ∈ items) :
    ∃ first ∈ firsts key items, key first = key item ∧ (first = item ∨ content item = []) := by
  induction items with
  | nil => cases member
  | cons head rest ih =>
    obtain ⟨superseded, distinguished⟩ := List.pairwise_cons.mp distinguished
    rcases List.mem_cons.mp member with rfl | inRest
    · exact ⟨item, List.mem_cons_self, rfl, Or.inl rfl⟩
    · by_cases same : key head = key item
      · exact ⟨head, List.mem_cons_self, same, Or.inr (superseded item inRest same)⟩
      · obtain ⟨first, kept, equal, covered⟩ := ih distinguished inRest
        have apart : key first ≠ key head := fun other => same (other.symm.trans equal)
        exact ⟨first, List.mem_cons_of_mem _ (List.mem_filter.mpr ⟨kept, by simpa using apart⟩), equal, covered⟩

variable (measure : β → Nat) (measured : ∀ item, measure (value item) = (content item).length)

def total (items : List α) : Nat := (items.map fun item => (content item).length).sum

include measured

theorem sumBy_table_le (items : List α) : sumBy measure (table key value items) ≤ total content items := by
  induction items with
  | nil => exact le_rfl
  | cons head rest ih =>
    have step : table key value (head :: rest) = (table key value rest).insert (key head) (value head) := rfl
    rw [step, sumBy_insert, measured, total, List.map_cons, List.sum_cons]
    exact Nat.add_le_add_left ((sumBy_erase_le measure _ _).trans ih) _

theorem sumBy_table_iff (items : List α) :
    sumBy measure (table key value items) = total content items ↔ Distinguished key content items := by
  induction items with
  | nil => exact iff_of_true rfl List.Pairwise.nil
  | cons head rest ih =>
    have step : table key value (head :: rest) = (table key value rest).insert (key head) (value head) := rfl
    have most := sumBy_table_le key value content measure measured rest
    have totals : total content (head :: rest) = (content head).length + total content rest := rfl
    rw [step, sumBy_insert, measured, totals, Distinguished, List.pairwise_cons, Nat.add_left_cancel_iff]
    have erased := sumBy_erase_le measure (table key value rest) (key head)
    constructor
    · intro all
      have distinguished := ih.mp (by omega)
      refine ⟨fun later member same => ?_, distinguished⟩
      obtain ⟨first, kept, equal, covered⟩ := exists_first key content rest distinguished later member
      have found : (table key value rest)[key head]? = some (value first) :=
        (get_table key value rest _ _).mpr ⟨first, kept, equal.trans same.symm, rfl⟩
      have split := sumBy_present measure _ _ _ found
      rcases covered with rfl | empty
      · rw [measured] at split
        exact List.eq_nil_of_length_eq_zero (by omega)
      · exact empty
    · rintro ⟨superseded, distinguished⟩
      have all := ih.mpr distinguished
      cases found : (table key value rest)[key head]? with
      | none => rw [erase_absent _ _ found, all]
      | some entry =>
        obtain ⟨first, kept, equal, rfl⟩ := (get_table key value rest _ _).mp found
        have empty := superseded first (mem_of_mem_firsts key rest first kept) equal.symm
        have split := sumBy_present measure _ _ _ found
        rw [measured, empty, List.length_nil, Nat.zero_add] at split
        exact split.symm.trans all

end ReductStore.KeyTable
