import ReductStore.Api.DeltaHeader

set_option autoImplicit false

namespace ReductStore

namespace DeltaHeader

open Text BatchHeader

section Apply

variable {labels : List LabelText} {label : LabelText}

theorem mem_applyOp (op : List Char × Option (List Char)) :
    label ∈ applyOp labels op ↔ (label.1 = op.1 ∧ op.2 = some label.2) ∨ (label.1 ≠ op.1 ∧ label ∈ labels) := by
  obtain ⟨name, value⟩ := label
  obtain ⟨changed, content⟩ := op
  cases content with
  | none => simp [applyOp, and_comm]
  | some content =>
    simp only [applyOp, insertLabel, List.mem_append, List.mem_filter, List.mem_singleton, decide_eq_true_eq,
      Option.some.injEq, Prod.mk.injEq]
    constructor
    · rintro (⟨kept, other⟩ | ⟨same, value⟩)
      · exact .inr ⟨other, kept⟩
      · exact .inl ⟨same, value.symm⟩
    · rintro (⟨same, value⟩ | ⟨other, kept⟩)
      · exact .inr ⟨same, value.symm⟩
      · exact .inl ⟨kept, other⟩

theorem mem_foldl_applyOp (ops : List (List Char × Option (List Char))) (base : List LabelText) :
    label ∈ ops.foldl applyOp base ↔
      match (ops.filter (·.1 = label.1)).getLast? with
      | some op => op.2 = some label.2
      | none => label ∈ base := by
  induction ops using List.reverseRecOn with
  | nil => simp
  | append_singleton ops op ih =>
    rw [List.foldl_append, List.foldl_cons, List.foldl_nil, mem_applyOp, List.filter_append]
    by_cases same : op.1 = label.1
    · simp [same]
    · rw [ih]
      simp [same, Ne.symm same]

theorem nodup_applyOp (nodup : (labels.map Prod.fst).Nodup) (op : List Char × Option (List Char)) :
    ((applyOp labels op).map Prod.fst).Nodup := by
  unfold applyOp
  split
  · exact nodup_insertLabel nodup _
  · exact nodup.sublist (List.filter_sublist.map Prod.fst)

theorem nodup_foldl_applyOp (ops : List (List Char × Option (List Char))) (nodup : (labels.map Prod.fst).Nodup) :
    ((ops.foldl applyOp labels).map Prod.fst).Nodup := by
  induction ops generalizing labels with
  | nil => exact nodup
  | cons op ops ih => exact ih (nodup_applyOp nodup op)

end Apply

def Visible (char : Char) : Prop := char.toNat = 9 ∨ 32 ≤ char.toNat ∧ char.toNat < 127

end DeltaHeader

end ReductStore
