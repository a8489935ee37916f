import Mathlib

set_option autoImplicit false

namespace ReductStore.TreeMap

open Std

variable {β : Type}

@[simp] theorem get_insert (map : ExtTreeMap Nat β) (key other : Nat) (value : β) :
    (map.insert key value)[other]? = if other = key then some value else map[other]? := by
  rw [ExtTreeMap.getElem?_insert]
  by_cases same : other = key
  · simp [same]
  · simp [same, Ne.symm same]

@[simp] theorem get_erase (map : ExtTreeMap Nat β) (key other : Nat) :
    (map.erase key)[other]? = if other = key then none else map[other]? := by
  rw [ExtTreeMap.getElem?_erase]
  by_cases same : other = key
  · simp [same]
  · simp [same, Ne.symm same]

theorem ext_get {left right : ExtTreeMap Nat β} (same : ∀ key : Nat, left[key]? = right[key]?) :
    left = right :=
  ExtTreeMap.ext_getElem? (fun {key} => same key)

theorem mem_toList (map : ExtTreeMap Nat β) (entry : Nat × β) :
    entry ∈ map.toList ↔ map[entry.1]? = some entry.2 := by
  obtain ⟨key, value⟩ := entry
  exact ExtTreeMap.mem_toList_iff_getElem?_eq_some

theorem mem_keys_iff (map : ExtTreeMap Nat β) (key : Nat) :
    key ∈ map.keys ↔ ∃ value, map[key]? = some value := by
  rw [ExtTreeMap.mem_keys, ExtTreeMap.mem_iff_isSome_getElem?, Option.isSome_iff_exists]

theorem toList_sorted (map : ExtTreeMap Nat β) :
    map.toList.Pairwise (fun first second => first.1 < second.1) := by
  refine (ExtTreeMap.ordered_keys_toList (t := map)).imp ?_
  intro first second before
  simpa [Nat.compare_eq_lt] using before

theorem keys_sorted (map : ExtTreeMap Nat β) : map.keys.Pairwise (· < ·) := by
  refine (ExtTreeMap.ordered_keys (t := map)).imp ?_
  intro first second before
  simpa [Nat.compare_eq_lt] using before

theorem toList_nodup (map : ExtTreeMap Nat β) : map.toList.Nodup :=
  (toList_sorted map).imp (fun before same => by simp [same] at before)

theorem toList_insert_perm (map : ExtTreeMap Nat β) (key : Nat) (value : β) :
    ((map.insert key value).toList).Perm ((key, value) :: (map.erase key).toList) := by
  have fresh : (key, value) ∉ (map.erase key).toList := by simp
  refine (List.perm_ext_iff_of_nodup (toList_nodup _) (List.nodup_cons.mpr ⟨fresh, toList_nodup _⟩)).mpr ?_
  rintro ⟨other, found⟩
  by_cases same : other = key
  · subst same
    simp [eq_comm]
  · simp [same]

def sumBy (measure : β → Nat) (map : ExtTreeMap Nat β) : Nat :=
  (map.toList.map (fun entry => measure entry.2)).sum

@[simp] theorem sumBy_empty (measure : β → Nat) : sumBy measure (∅ : ExtTreeMap Nat β) = 0 := rfl

theorem sumBy_insert (measure : β → Nat) (map : ExtTreeMap Nat β) (key : Nat) (value : β) :
    sumBy measure (map.insert key value) = measure value + sumBy measure (map.erase key) := by
  have perm := (toList_insert_perm map key value).map (fun entry => measure entry.2)
  simpa [sumBy] using perm.sum_eq

theorem erase_absent (map : ExtTreeMap Nat β) (key : Nat) (absent : map[key]? = none) :
    map.erase key = map := by
  apply ext_get
  intro other
  by_cases same : other = key
  · simp [same, absent]
  · simp [same]

theorem insert_erase (map : ExtTreeMap Nat β) (key : Nat) (value : β) :
    (map.erase key).insert key value = map.insert key value := by
  apply ext_get
  intro other
  by_cases same : other = key <;> simp [same]

theorem insert_present (map : ExtTreeMap Nat β) (key : Nat) (value : β) (present : map[key]? = some value) :
    map.insert key value = map := by
  apply ext_get
  intro other
  by_cases same : other = key
  · simp [same, present]
  · simp [same]

theorem sumBy_present (measure : β → Nat) (map : ExtTreeMap Nat β) (key : Nat) (value : β)
    (present : map[key]? = some value) :
    sumBy measure map = measure value + sumBy measure (map.erase key) := by
  have split := sumBy_insert measure map key value
  rwa [insert_present map key value present] at split

theorem sumBy_erase_le (measure : β → Nat) (map : ExtTreeMap Nat β) (key : Nat) :
    sumBy measure (map.erase key) ≤ sumBy measure map := by
  cases found : map[key]? with
  | none => rw [erase_absent map key found]
  | some value =>
    have split := sumBy_present measure map key value found
    omega

theorem get_foldl_insert (entries : List (Nat × β)) (distinct : entries.Pairwise (fun first second => first.1 < second.1))
    (map : ExtTreeMap Nat β) (key : Nat) (value : β) :
    (entries.foldl (fun current entry => current.insert entry.1 entry.2) map)[key]? = some value ↔
      (key, value) ∈ entries ∨ map[key]? = some value ∧ ∀ entry ∈ entries, entry.1 ≠ key := by
  induction entries generalizing map with
  | nil => simp
  | cons entry rest ih =>
    obtain ⟨before, distinct⟩ := List.pairwise_cons.mp distinct
    rw [List.foldl_cons, ih distinct, get_insert]
    by_cases same : key = entry.1
    · subst same
      have later : ∀ other ∈ rest, other.1 ≠ entry.1 := fun other member => (before other member).ne'
      have absent : (entry.1, value) ∉ rest := fun member => later _ member rfl
      have head : (entry.1, value) = entry ↔ entry.2 = value := by
        simp [Prod.ext_iff, eq_comm]
      simp [absent, head]
      exact fun _ time found member => later (time, found) member
    · have other : (key, value) ≠ entry := fun equal => same (by simp [← equal])
      simp [same, other, Ne.symm same]

theorem foldl_insert_toList (map : ExtTreeMap Nat β) :
    map.toList.foldl (fun current entry => current.insert entry.1 entry.2) ∅ = map := by
  apply ext_get
  intro key
  apply Option.ext
  intro value
  rw [get_foldl_insert map.toList (toList_sorted map) ∅ key value, mem_toList]
  simp

theorem size_insert_absent (map : ExtTreeMap Nat β) (key : Nat) (value : β) (absent : map[key]? = none) :
    (map.insert key value).size = map.size + 1 := by
  have missing : key ∉ map := by simp [ExtTreeMap.mem_iff_isSome_getElem?, absent]
  simp [ExtTreeMap.size_insert, missing]

theorem size_insert_present (map : ExtTreeMap Nat β) (key : Nat) (value found : β)
    (present : map[key]? = some found) : (map.insert key value).size = map.size := by
  have member : key ∈ map := by simp [ExtTreeMap.mem_iff_isSome_getElem?, present]
  simp [ExtTreeMap.size_insert, member]

theorem size_erase_present (map : ExtTreeMap Nat β) (key : Nat) (found : β) (present : map[key]? = some found) :
    (map.erase key).size + 1 = map.size := by
  have restored := size_insert_absent (map.erase key) key found (by simp)
  rw [insert_erase, size_insert_present map key found found present] at restored
  exact restored.symm

theorem eq_empty_of_none (map : ExtTreeMap Nat β) (absent : ∀ key : Nat, map[key]? = none) : map = ∅ := by
  apply ext_get
  simpa using absent

theorem size_eq_zero (map : ExtTreeMap Nat β) : map.size = 0 ↔ ∀ key : Nat, map[key]? = none := by
  constructor
  · intro empty key
    have isEmpty : map = ∅ := ExtTreeMap.eq_empty_iff_size_eq_zero.mpr empty
    simp [isEmpty]
  · intro absent
    simp [eq_empty_of_none map absent]

theorem getLast_sorted {keys : List Nat} (sorted : keys.Pairwise (· < ·)) (key : Nat) :
    keys.getLast? = some key ↔ key ∈ keys ∧ ∀ other ∈ keys, other ≤ key := by
  induction keys with
  | nil => simp
  | cons first rest ih =>
    obtain ⟨before, sorted⟩ := List.pairwise_cons.mp sorted
    cases rest with
    | nil =>
      simp only [List.getLast?_singleton, Option.some.injEq, List.mem_singleton, forall_eq]
      omega
    | cons second rest =>
      have later : first < second := before second (by simp)
      rw [List.getLast?_cons_cons, ih sorted]
      constructor
      · rintro ⟨member, upper⟩
        refine ⟨List.mem_cons_of_mem _ member, ?_⟩
        intro other found
        rcases List.mem_cons.mp found with rfl | found
        · exact (before key member).le
        · exact upper other found
      · rintro ⟨member, upper⟩
        refine ⟨?_, fun other found => upper other (List.mem_cons_of_mem _ found)⟩
        rcases List.mem_cons.mp member with rfl | found
        · exact absurd (upper second (by simp)) (by omega)
        · exact found

theorem head_sorted {keys : List Nat} (sorted : keys.Pairwise (· < ·)) (key : Nat) (head : keys.head? = some key) :
    key ∈ keys ∧ ∀ other ∈ keys, key ≤ other := by
  cases keys with
  | nil => simp at head
  | cons first rest =>
    obtain rfl : first = key := by simpa using head
    refine ⟨by simp, ?_⟩
    intro other member
    rcases List.mem_cons.mp member with rfl | later
    · exact le_rfl
    · exact ((List.pairwise_cons.mp sorted).1 other later).le

def lastKey (map : ExtTreeMap Nat β) : Option Nat := map.keys.getLast?

theorem lastKey_some (map : ExtTreeMap Nat β) (key : Nat) :
    lastKey map = some key ↔
      (∃ value, map[key]? = some value) ∧ ∀ (other : Nat) (value : β), map[other]? = some value → other ≤ key := by
  rw [lastKey, getLast_sorted (keys_sorted map), mem_keys_iff]
  refine and_congr_right (fun _ => ⟨?_, ?_⟩)
  · intro upper other value found
    exact upper other ((mem_keys_iff map other).mpr ⟨value, found⟩)
  · intro upper other member
    obtain ⟨value, found⟩ := (mem_keys_iff map other).mp member
    exact upper other value found

theorem lastKey_none (map : ExtTreeMap Nat β) : lastKey map = none ↔ ∀ key : Nat, map[key]? = none := by
  rw [lastKey, List.getLast?_eq_none_iff, List.eq_nil_iff_forall_not_mem]
  simp only [mem_keys_iff, not_exists, Option.eq_none_iff_forall_ne_some]

end ReductStore.TreeMap
