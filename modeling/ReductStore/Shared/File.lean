import Mathlib

set_option autoImplicit false

namespace ReductStore

abbrev File := List UInt8

namespace File

def setLen (file : File) (length : Nat) : File :=
  file.take length ++ List.replicate (length - file.length) 0

theorem length_setLen (file : File) (length : Nat) : (setLen file length).length = length := by
  simp [setLen]
  omega

theorem get_setLen (file : File) (length index : Nat) :
    (setLen file length)[index]? = if index < length then some (file[index]?.getD 0) else none := by
  by_cases within : index < length
  · by_cases present : index < file.length
    · simp [setLen, List.getElem?_append, within, present]
    · have padded : index - min length file.length < length - file.length := by omega
      simp [setLen, List.getElem?_append, within, present, padded]
  · have beyond : (setLen file length).length ≤ index := by
      rw [length_setLen]
      omega
    simp [within, List.getElem?_eq_none beyond]

def writeAt (file : File) (position : Nat) (bytes : List UInt8) : File :=
  if bytes = [] then file
  else setLen file (max position file.length) |>.take position |>.append
    (bytes ++ file.drop (position + bytes.length))

theorem get_writeAt_outside (file : File) (position index : Nat) (bytes : List UInt8)
    (present : index < file.length) (outside : index < position ∨ position + bytes.length ≤ index) :
    (writeAt file position bytes)[index]? = file[index]? := by
  by_cases empty : bytes = []
  · simp [writeAt, empty]
  · have start : (List.take position (setLen file (max position file.length))).length = position := by
      simp [length_setLen]
    rcases outside with before | after
    · have within : index < max position file.length := by omega
      have kept := get_setLen file (max position file.length) index
      have read : (writeAt file position bytes)[index]? = (setLen file (max position file.length))[index]? := by
        rw [writeAt, if_neg empty, List.append_eq, List.getElem?_append_left (by omega),
          List.getElem?_take_of_lt before]
      rw [read, kept, if_pos within]
      simp [present]
    · have later : ¬ index < position := by omega
      have beyond : ¬ index - position < bytes.length := by omega
      have same : position + bytes.length + (index - position - bytes.length) = index := by omega
      simp [writeAt, empty, List.getElem?_append, start, later, beyond, same]

theorem get_writeAt_inside (file : File) (position index : Nat) (bytes : List UInt8)
    (inside : position ≤ index ∧ index < position + bytes.length) :
    (writeAt file position bytes)[index]? = bytes[index - position]? := by
  have empty : bytes ≠ [] := by
    rintro rfl
    simp at inside
    omega
  have start : (List.take position (setLen file (max position file.length))).length = position := by
    simp [length_setLen]
  have later : ¬ index < position := by omega
  have within : index - position < bytes.length := by omega
  simp [writeAt, empty, List.getElem?_append, start, later, within]

theorem length_writeAt (file : File) (position : Nat) (bytes : List UInt8) :
    file.length ≤ (writeAt file position bytes).length := by
  by_cases empty : bytes = []
  · simp [writeAt, empty]
  · simp [writeAt, empty, length_setLen]
    omega

theorem length_writeAt_inside (file : File) (position : Nat) (bytes : List UInt8)
    (inside : position + bytes.length ≤ file.length) : (writeAt file position bytes).length = file.length := by
  by_cases empty : bytes = []
  · simp [writeAt, empty]
  · simp [writeAt, empty, length_setLen]
    omega

theorem writeAt_append (before after : File) (bytes : List UInt8) :
    writeAt (before ++ after) before.length bytes = before ++ (bytes ++ after.drop bytes.length) := by
  by_cases empty : bytes = []
  · simp [writeAt, empty]
  · have longer : max before.length (before ++ after).length = (before ++ after).length := by simp
    have same : setLen (before ++ after) (before ++ after).length = before ++ after := by simp [setLen]
    have rest : (before ++ after).drop (before.length + bytes.length) = after.drop bytes.length := by
      simp [List.drop_append]
    rw [writeAt, if_neg empty, longer, same, rest]
    simp

def range (file : File) (first last : Nat) : List UInt8 := (file.take last).drop first

theorem get_range (file : File) (first last index : Nat) :
    (range file first last)[index]? = if first + index < last then file[first + index]? else none := by
  simp [range, List.getElem?_take]

theorem range_congr (file other : File) (first last : Nat)
    (same : ∀ index, first ≤ index → index < last → file[index]? = other[index]?) :
    range file first last = range other first last := by
  apply List.ext_getElem?
  intro index
  simp only [get_range]
  split
  · rename_i within
    exact same _ (by omega) within
  · rfl

theorem take_range (file : File) (first last count : Nat) :
    (range file first last).take count = range file first (min last (first + count)) := by
  apply List.ext_getElem?
  intro index
  simp only [List.getElem?_take, get_range]
  split_ifs <;> first | rfl | omega

theorem range_exact (file : File) (first last : Nat) :
    range file first (first + (range file first last).length) = range file first last := by
  apply List.ext_getElem?
  intro index
  have size : (range file first last).length = min last file.length - first := by simp [range]
  simp only [get_range]
  split_ifs <;> first | rfl | omega | (rw [eq_comm, List.getElem?_eq_none_iff]; omega)

theorem range_range (file : File) (first last start stop : Nat) (inside : first + stop ≤ last) :
    range (range file first last) start stop = range file (first + start) (first + stop) := by
  apply List.ext_getElem?
  intro index
  simp only [get_range]
  split_ifs <;> first | rfl | omega | (congr 1; omega)

theorem range_setLen (file : File) (length first last : Nat) (kept : last ≤ length)
    (present : last ≤ file.length) : range (setLen file length) first last = range file first last := by
  apply range_congr
  intro index _ below
  have within : index < length := by omega
  have inside : index < file.length := by omega
  simp [get_setLen, within, inside]

theorem range_writeAt (file : File) (position first last : Nat) (bytes : List UInt8)
    (present : last ≤ file.length) (outside : last ≤ position ∨ position + bytes.length ≤ first) :
    range (writeAt file position bytes) first last = range file first last := by
  apply range_congr
  intro index above below
  exact get_writeAt_outside file position index bytes (by omega) (by omega)

theorem range_writeAt_self (file : File) (position : Nat) (bytes : List UInt8) :
    range (writeAt file position bytes) position (position + bytes.length) = bytes := by
  apply List.ext_getElem?
  intro index
  rw [get_range]
  split
  · rename_i within
    rw [get_writeAt_inside file position _ bytes (by omega), Nat.add_sub_cancel_left]
  · rename_i beyond
    rw [List.getElem?_eq_none (by omega)]

def Holds (file : File) (first : Nat) (bytes : List UInt8) : Prop := range file first (first + bytes.length) = bytes

theorem holds_nil (file : File) (first : Nat) : Holds file first [] := by
  simp [Holds, range]

theorem Holds.get {file : File} {first : Nat} {bytes : List UInt8} (holds : Holds file first bytes) (index : Nat)
    (inside : index < bytes.length) : file[first + index]? = bytes[index]? := by
  have read := get_range file first (first + bytes.length) index
  rw [show range file first (first + bytes.length) = bytes from holds, if_pos (by omega)] at read
  exact read.symm

theorem holds_of_get {file : File} {first : Nat} {bytes : List UInt8}
    (same : ∀ index < bytes.length, file[first + index]? = bytes[index]?) : Holds file first bytes := by
  apply List.ext_getElem?
  intro index
  rw [get_range]
  split
  · exact same index (by omega)
  · rw [List.getElem?_eq_none (by omega)]

theorem Holds.kept {file other : File} {first : Nat} {bytes : List UInt8} (holds : Holds file first bytes)
    (same : ∀ index, first ≤ index → index < first + bytes.length → ∀ byte, file[index]? = some byte →
      other[index]? = some byte) : Holds other first bytes := by
  refine holds_of_get fun index inside => ?_
  have read := holds.get index inside
  rw [List.getElem?_eq_getElem inside] at read ⊢
  exact same (first + index) (by omega) (by omega) _ read

theorem Holds.writeAt_outside {file : File} {first position : Nat} {bytes chunk : List UInt8}
    (holds : Holds file first bytes) (outside : first + bytes.length ≤ position ∨ position + chunk.length ≤ first) :
    Holds (writeAt file position chunk) first bytes := by
  refine holds.kept fun index above below byte found => ?_
  have present : index < file.length := (List.getElem?_eq_some_iff.mp found).1
  rw [get_writeAt_outside file position index chunk present (by omega), found]

theorem Holds.append {file : File} {first : Nat} {bytes : List UInt8} (holds : Holds file first bytes)
    (chunk : List UInt8) : Holds (writeAt file (first + bytes.length) chunk) first (bytes ++ chunk) := by
  have kept : Holds (writeAt file (first + bytes.length) chunk) first bytes := holds.writeAt_outside (Or.inl le_rfl)
  refine holds_of_get fun index inside => ?_
  rw [List.length_append] at inside
  by_cases before : index < bytes.length
  · rw [kept.get index before, List.getElem?_append_left before]
  · rw [get_writeAt_inside file _ _ chunk (by omega), List.getElem?_append_right (by omega)]
    congr 1
    omega

end File

end ReductStore
