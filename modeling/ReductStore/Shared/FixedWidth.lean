import ReductStore.Shared.BigEndian

set_option autoImplicit false

namespace ReductStore.FixedWidth

open BigEndian

abbrev Field := Nat × Nat

def Fits (field : Field) : Prop := 0 < field.1 ∧ field.2 < 256 ^ field.1

def fixed : Nat → Nat → List UInt8
  | 0, _ => []
  | width + 1, value => UInt8.ofNat (value / 256 ^ width) :: fixed width value

def stream (fields : List Field) : List UInt8 := fields.flatMap fun field => fixed field.1 field.2

inductive Regroups : List Field → List Field → Prop where
  | done : Regroups [] []
  | both {width value : Nat} {first second : List Field} (rest : Regroups first second) :
      Regroups ((width, value) :: first) ((width, value) :: second)
  | left {width more value low : Nat} {first second : List Field} (small : low < 256 ^ more)
      (rest : Regroups first ((more, low) :: second)) :
      Regroups ((width, value) :: first) ((width + more, value * 256 ^ more + low) :: second)
  | right {width more value low : Nat} {first second : List Field} (small : low < 256 ^ more)
      (rest : Regroups ((more, low) :: first) second) :
      Regroups ((width + more, value * 256 ^ more + low) :: first) ((width, value) :: second)

@[simp] theorem length_fixed (width value : Nat) : (fixed width value).length = width := by
  induction width with
  | zero => rfl
  | succ width ih => simp [fixed, ih]

theorem fixed_eight (value : Nat) : fixed 8 value = toBytes value := by
  simp [fixed, toBytes]

theorem fixed_shift (width more value low : Nat) :
    fixed (width + more) (value * 256 ^ more + low) =
      fixed width (value + low / 256 ^ more) ++ fixed more (value * 256 ^ more + low) := by
  induction width with
  | zero => simp [fixed]
  | succ width ih =>
    have head : (value * 256 ^ more + low) / 256 ^ (width + more) = (value + low / 256 ^ more) / 256 ^ width := by
      rw [Nat.add_comm width, pow_add, ← Nat.div_div_eq_div_mul, Nat.add_comm (value * _),
        Nat.add_mul_div_right _ _ (by positivity), Nat.add_comm]
    rw [Nat.add_right_comm, fixed, fixed, head, ih, List.cons_append]

theorem fixed_high (width value low : Nat) : fixed width (value * 256 ^ width + low) = fixed width low := by
  induction width generalizing value with
  | zero => rfl
  | succ width ih =>
    have carried : value * 256 ^ (width + 1) + low = value * 256 * 256 ^ width + low := by ring
    have head : (value * 256 * 256 ^ width + low) / 256 ^ width = low / 256 ^ width + 256 * value := by
      rw [Nat.add_comm, Nat.add_mul_div_right _ _ (by positivity), Nat.mul_comm value]
    rw [fixed, fixed, carried, head, ih]
    congr 1
    apply UInt8.toNat_inj.mp
    simp

theorem fixed_append (width more value low : Nat) (small : low < 256 ^ more) :
    fixed (width + more) (value * 256 ^ more + low) = fixed width value ++ fixed more low := by
  rw [fixed_shift, Nat.div_eq_of_lt small, Nat.add_zero, fixed_high]

theorem fixed_injective {width first second : Nat} (below : first < 256 ^ width) (below' : second < 256 ^ width)
    (same : fixed width first = fixed width second) : first = second := by
  induction width generalizing first second with
  | zero => simp at below below'; omega
  | succ width ih =>
    rw [fixed, fixed, List.cons.injEq] at same
    have power : 0 < 256 ^ width := by positivity
    have split := Nat.div_add_mod first (256 ^ width)
    have split' := Nat.div_add_mod second (256 ^ width)
    have high : first / 256 ^ width = second / 256 ^ width := by
      have byte := congrArg UInt8.toNat same.1
      have top : first / 256 ^ width < 256 := Nat.div_lt_of_lt_mul (by rwa [pow_succ] at below)
      have top' : second / 256 ^ width < 256 := Nat.div_lt_of_lt_mul (by rwa [pow_succ] at below')
      simpa [UInt8.toNat_ofNat', Nat.mod_eq_of_lt top, Nat.mod_eq_of_lt top'] using byte
    have low : first % 256 ^ width = second % 256 ^ width := by
      apply ih (Nat.mod_lt _ power) (Nat.mod_lt _ power)
      have tail := same.2
      rw [← split, ← split', Nat.mul_comm, Nat.mul_comm (256 ^ width), fixed_high, fixed_high] at tail
      exact tail
    rw [← split, ← split', high, low]

theorem Regroups.stream_eq {first second : List Field} (regroups : Regroups first second) :
    stream first = stream second := by
  induction regroups with
  | done => rfl
  | both _ ih => simpa [stream] using ih
  | left small _ ih => simpa [stream, fixed_append _ _ _ _ small] using ih
  | right small _ ih => simpa [stream, fixed_append _ _ _ _ small] using ih

theorem cut_field {width more value total : Nat} {first second : List UInt8} (fits : value < 256 ^ width)
    (fits' : total < 256 ^ (width + more))
    (same : fixed width value ++ first = fixed (width + more) total ++ second) :
    ∃ low, low < 256 ^ more ∧ total = value * 256 ^ more + low ∧ first = fixed more low ++ second := by
  have split := Nat.div_add_mod' total (256 ^ more)
  have small : total % 256 ^ more < 256 ^ more := Nat.mod_lt _ (by positivity)
  rw [← split, fixed_append _ _ _ _ small, List.append_assoc] at same
  obtain ⟨head, tail⟩ := List.append_inj same (by simp)
  have high : value = total / 256 ^ more := by
    apply fixed_injective fits _ head
    apply Nat.div_lt_of_lt_mul
    rwa [Nat.mul_comm, ← pow_add]
  exact ⟨total % 256 ^ more, small, by rw [high, split], tail⟩

theorem regroups_of_stream_eq (first second : List Field) (fits : ∀ field ∈ first, Fits field)
    (fits' : ∀ field ∈ second, Fits field) (same : stream first = stream second) : Regroups first second := by
  -- one of the two lists gets shorter in every case, and a cut field stays one field
  match first, second with
  | [], [] => exact .done
  | [], (width, value) :: second =>
    have positive := (fits' _ List.mem_cons_self).1
    have length := congrArg List.length same
    simp [stream] at length
    omega
  | (width, value) :: first, [] =>
    have positive := (fits _ List.mem_cons_self).1
    have length := congrArg List.length same
    simp [stream] at length
    omega
  | (width, value) :: first, (width', value') :: second =>
    obtain ⟨positive, bound⟩ := fits _ List.mem_cons_self
    obtain ⟨positive', bound'⟩ := fits' _ List.mem_cons_self
    have tail := fun field member => fits field (List.mem_cons_of_mem (width, value) member)
    have tail' := fun field member => fits' field (List.mem_cons_of_mem (width', value') member)
    have bytes : fixed width value ++ stream first = fixed width' value' ++ stream second := same
    rcases Nat.lt_trichotomy width width' with short | rfl | long
    · obtain ⟨more, rfl⟩ := Nat.exists_eq_add_of_lt short
      rw [Nat.add_assoc] at bytes bound'
      obtain ⟨low, small, rfl, rest⟩ := cut_field bound bound' bytes
      have cut : ∀ field ∈ (more + 1, low) :: second, Fits field :=
        List.forall_mem_cons.mpr ⟨⟨Nat.succ_pos more, small⟩, tail'⟩
      have shorter := regroups_of_stream_eq first ((more + 1, low) :: second) tail cut rest
      rw [Nat.add_assoc]
      exact .left small shorter
    · obtain ⟨head, rest⟩ := List.append_inj bytes (by simp)
      obtain rfl := fixed_injective bound bound' head
      exact .both (regroups_of_stream_eq first second tail tail' rest)
    · obtain ⟨more, rfl⟩ := Nat.exists_eq_add_of_lt long
      rw [Nat.add_assoc] at bytes bound
      obtain ⟨low, small, rfl, rest⟩ := cut_field bound' bound bytes.symm
      have cut : ∀ field ∈ (more + 1, low) :: first, Fits field :=
        List.forall_mem_cons.mpr ⟨⟨Nat.succ_pos more, small⟩, tail⟩
      have shorter := regroups_of_stream_eq ((more + 1, low) :: first) second cut tail' rest.symm
      rw [Nat.add_assoc]
      exact .right small shorter
termination_by first.length + second.length

theorem regroups_iff {first second : List Field} (fits : ∀ field ∈ first, Fits field)
    (fits' : ∀ field ∈ second, Fits field) : Regroups first second ↔ stream first = stream second :=
  ⟨Regroups.stream_eq, regroups_of_stream_eq first second fits fits'⟩

theorem regroups_same_widths {first second : List Field} (fits : ∀ field ∈ first, Fits field)
    (fits' : ∀ field ∈ second, Fits field) (widths : first.map Prod.fst = second.map Prod.fst) :
    Regroups first second ↔ first = second := by
  rw [regroups_iff fits fits']
  refine ⟨fun same => ?_, fun same => same ▸ rfl⟩
  induction first generalizing second with
  | nil => simpa using widths.symm
  | cons field first ih =>
    obtain - | ⟨field', second⟩ := second
    · simp at widths
    rw [List.map_cons, List.map_cons, List.cons.injEq] at widths
    rw [List.forall_mem_cons] at fits fits'
    obtain ⟨width, value⟩ := field
    obtain ⟨width', value'⟩ := field'
    obtain rfl : width = width' := widths.1
    have bytes : fixed width value ++ stream first = fixed width value' ++ stream second := same
    obtain ⟨head, rest⟩ := List.append_inj bytes (by simp)
    obtain rfl : value = value' := fixed_injective fits.1.2 fits'.1.2 head
    rw [ih fits.2 fits'.2 widths.2 rest]

end ReductStore.FixedWidth
