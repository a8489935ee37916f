import ReductStore.Storage.Block

set_option autoImplicit false

namespace ReductStore

open Std TreeMap

def Record.range (record : Record) : Set Nat := Set.Ico record.beginPos record.endPos

namespace Block

structure Accounted (block : Block) : Prop where
  size : block.size = sumBy Record.length block.recordIndex
  count : block.recordCount = block.recordIndex.size

structure Separated (block : Block) : Prop where
  ordered : ∀ (time : Nat) (record : Record), block.getRecord time = some record → record.beginPos ≤ record.endPos
  disjoint : ∀ (first second : Nat) (left right : Record), first ≠ second →
    block.getRecord first = some left → block.getRecord second = some right → Disjoint left.range right.range

structure Layout (block : Block) : Prop extends Accounted block, Separated block where
  inside : ∀ (time : Nat) (record : Record), block.getRecord time = some record → record.range ⊆ Set.Ico 0 block.size

theorem Layout.end_le {block : Block} (layout : block.Layout) {time : Nat} {record : Record}
    (found : block.getRecord time = some record) (filled : record.beginPos < record.endPos) :
    record.endPos ≤ block.size := by
  have last : record.endPos - 1 ∈ record.range := by
    simp only [Record.range, Set.mem_Ico]
    omega
  have within := layout.inside time record found last
  simp only [Set.mem_Ico] at within
  omega

theorem Layout.transfer {block other : Block} (layout : block.Layout) (accounted : other.Accounted)
    (size : other.size = block.size)
    (positions : ∀ (time : Nat) (record : Record), other.getRecord time = some record →
      ∃ old, block.getRecord time = some old ∧ record.beginPos = old.beginPos ∧ record.endPos = old.endPos) :
    other.Layout := by
  refine { accounted with ordered := ?_, disjoint := ?_, inside := ?_ }
  · intro time record found
    obtain ⟨old, was, first, last⟩ := positions time record found
    rw [first, last]
    exact layout.ordered time old was
  · intro first second left right different leftFound rightFound
    obtain ⟨leftOld, leftWas, leftFirst, leftLast⟩ := positions first left leftFound
    obtain ⟨rightOld, rightWas, rightFirst, rightLast⟩ := positions second right rightFound
    unfold Record.range
    rw [leftFirst, leftLast, rightFirst, rightLast]
    exact layout.disjoint first second leftOld rightOld different leftWas rightWas
  · intro time record found
    obtain ⟨old, was, first, last⟩ := positions time record found
    unfold Record.range
    rw [first, last, size]
    exact layout.inside time old was

theorem layout_new (blockId : Nat) : (new blockId).Layout := by
  refine { size := ?_, count := ?_, ordered := ?_, disjoint := ?_, inside := ?_ }
  · simp [new]
  · simp [new]
  · intro time record found
    simp at found
  · intro first second left right _ found
    simp at found
  · intro time record found
    simp at found

theorem Accounted.occupied {block : Block} (accounted : block.Accounted) :
    block.Occupied ↔ block.recordCount ≠ 0 := by
  rw [accounted.count, ne_eq, size_eq_zero]
  unfold Occupied getRecord
  constructor
  · rintro ⟨time, record, found⟩ absent
    simp [absent time] at found
  · intro some
    by_contra none
    apply some
    intro time
    cases found : block.recordIndex[time]? with
    | none => rfl
    | some record => exact absurd ⟨time, record, found⟩ none

theorem Accounted.layout_empty {block : Block} (accounted : block.Accounted) (empty : block.recordCount = 0) :
    block.Layout := by
  have absent (time : Nat) (record : Record) : block.getRecord time ≠ some record := fun found =>
    accounted.occupied.mp ⟨time, record, found⟩ empty
  exact { accounted with
    ordered := fun time record found => absurd found (absent time record)
    disjoint := fun first _ left _ _ found => absurd found (absent first left)
    inside := fun time record found => absurd found (absent time record) }

section Insert

variable [Codec]

theorem Accounted.insertOrUpdate {block : Block} (accounted : block.Accounted) (record : Record) :
    (block.insertOrUpdateRecord record).Accounted := by
  unfold insertOrUpdateRecord
  split
  · rename_i existing found
    have before := sumBy_present Record.length block.recordIndex record.timestamp existing found
    constructor
    · simp only [sumBy_insert, accounted.size]
      omega
    · simp only [size_insert_present block.recordIndex record.timestamp record existing found, accounted.count]
  · rename_i absent
    constructor
    · simp only [sumBy_insert, erase_absent block.recordIndex record.timestamp absent, accounted.size]
      omega
    · simp only [size_insert_absent block.recordIndex record.timestamp record absent, accounted.count]

theorem size_insertOrUpdate_vacant (block : Block) (record : Record)
    (vacant : block.getRecord record.timestamp = none) :
    (block.insertOrUpdateRecord record).size = block.size + record.length := by
  unfold insertOrUpdateRecord
  simp [vacant]

theorem size_insertOrUpdate_same (block : Block) (accounted : block.Accounted) (record existing : Record)
    (found : block.getRecord record.timestamp = some existing) (same : record.length = existing.length) :
    (block.insertOrUpdateRecord record).size = block.size := by
  have counted := sumBy_present Record.length block.recordIndex record.timestamp existing found
  have size := accounted.size
  unfold insertOrUpdateRecord
  simp only [found, same]
  omega

theorem Layout.replace {block : Block} (layout : block.Layout) (record existing : Record)
    (found : block.getRecord record.timestamp = some existing)
    (first : record.beginPos = existing.beginPos) (last : record.endPos = existing.endPos) :
    (block.insertOrUpdateRecord record).Layout := by
  have sameLength : record.length = existing.length := by simp only [Record.length, first, last]
  refine layout.transfer (layout.toAccounted.insertOrUpdate record)
    (size_insertOrUpdate_same block layout.toAccounted record existing found sameLength) ?_
  intro time stored present
  rw [getRecord_insertOrUpdate] at present
  split_ifs at present with same
  · obtain rfl := Option.some.inj present
    exact ⟨existing, same ▸ found, first, last⟩
  · exact ⟨stored, present, rfl, rfl⟩

theorem Layout.prepareForWriting {block : Block} (layout : block.Layout) (time contentSize : Nat)
    (contentType : String) (labels : List Label) (vacant : block.getRecord time = none) :
    (block.prepareForWriting time contentSize contentType labels).Layout := by
  set record := block.startedRecord time contentSize contentType labels
  have range : record.range = Set.Ico block.size (block.size + contentSize) := rfl
  have size : (block.insertOrUpdateRecord record).size = block.size + contentSize := by
    rw [size_insertOrUpdate_vacant block record vacant]
    simp [record, startedRecord, Record.length]
  have apart (stored : Record) (other : Nat) (found : block.getRecord other = some stored) :
      Disjoint record.range stored.range := by
    rw [Set.disjoint_left, range]
    intro position written kept
    have within := layout.inside other stored found kept
    simp only [Set.mem_Ico] at written within
    omega
  change (block.insertOrUpdateRecord record).Layout
  refine { layout.toAccounted.insertOrUpdate record with ordered := ?_, disjoint := ?_, inside := ?_ }
  · intro other stored found
    rw [getRecord_insertOrUpdate] at found
    split_ifs at found with same
    · obtain rfl := Option.some.inj found
      simp [record, startedRecord]
    · exact layout.ordered other stored found
  · intro first second left right different leftFound rightFound
    rw [getRecord_insertOrUpdate] at leftFound rightFound
    split_ifs at leftFound rightFound with leftSame rightSame rightSame
    · exact absurd (leftSame.trans rightSame.symm) different
    · obtain rfl := Option.some.inj leftFound
      exact apart right second rightFound
    · obtain rfl := Option.some.inj rightFound
      exact (apart left first leftFound).symm
    · exact layout.disjoint first second left right different leftFound rightFound
  · intro other stored found
    rw [getRecord_insertOrUpdate] at found
    rw [size]
    split_ifs at found with same
    · obtain rfl := Option.some.inj found
      rw [range]
      exact Set.Ico_subset_Ico_left (Nat.zero_le _)
    · exact (layout.inside other stored found).trans (Set.Ico_subset_Ico_right (Nat.le_add_right _ _))

theorem Accounted.removeRecord {block : Block} (accounted : block.Accounted) (time : Nat) :
    (block.removeRecord time).Accounted := by
  unfold Block.removeRecord
  split
  · rename_i record found
    have total := sumBy_present Record.length block.recordIndex time record found
    have count := size_erase_present block.recordIndex time record found
    have size := accounted.size
    have recordCount := accounted.count
    constructor
    · dsimp only
      omega
    · dsimp only
      omega
  · exact accounted

theorem Separated.removeRecord {block : Block} (separated : block.Separated) (time : Nat) :
    (block.removeRecord time).Separated := by
  have before (other : Nat) (record : Record)
      (found : (block.removeRecord time).getRecord other = some record) : block.getRecord other = some record := by
    rw [getRecord_removeRecord] at found
    split_ifs at found
    exact found
  constructor
  · intro other record found
    exact separated.ordered other record (before other record found)
  · intro first second left right different leftFound rightFound
    exact separated.disjoint first second left right different (before first left leftFound)
      (before second right rightFound)

end Insert

section Positions

theorem Accounted.modifyRecord {block : Block} (accounted : block.Accounted) (time : Nat)
    (update : Record → Record) (same : ∀ record, (update record).timestamp = record.timestamp)
    (length : ∀ record, block.getRecord time = some record → (update record).length = record.length) :
    (block.modifyRecord time update same).Accounted := by
  unfold Block.modifyRecord
  split
  · rename_i record found
    have total := sumBy_present Record.length block.recordIndex time record found
    constructor
    · simp only [sumBy_insert, length record found, accounted.size, total]
    · simp only [size_insert_present block.recordIndex time (update record) record found, accounted.count]
  · exact accounted

theorem Layout.changeState {block changed : Block} (layout : block.Layout) (time : Nat) (state : RecordState)
    (success : block.changeRecordState time state = .ok changed) : changed.Layout := by
  unfold changeRecordState at success
  split at success
  · obtain rfl := Except.ok.inj success
    refine layout.transfer (layout.toAccounted.modifyRecord time _ (Record.timestamp_withState state) (fun _ _ => rfl))
      (size_modifyRecord _ _ _ _) ?_
    intro other record found
    rw [getRecord_modifyRecord] at found
    split_ifs at found with equal
    · obtain ⟨old, was, rfl⟩ := Option.map_eq_some_iff.mp found
      exact ⟨old, was, rfl, rfl⟩
    · exact ⟨record, found, rfl, rfl⟩
  · cases success

theorem getRecord_reposition (block : Block) (positions : List (Nat × Nat × Nat))
    (distinct : (positions.map Prod.fst).Nodup) (time : Nat) (record : Record) :
    (block.reposition positions).getRecord time = some record ↔
      ∃ old, block.getRecord time = some old ∧
        ((∃ first last, (time, first, last) ∈ positions ∧ record = old.moved first last) ∨
          (time ∉ positions.map Prod.fst ∧ record = old)) := by
  induction positions generalizing block with
  | nil => simp [reposition, eq_comm]
  | cons position rest ih =>
    obtain ⟨key, first, last⟩ := position
    obtain ⟨fresh, distinct⟩ := List.nodup_cons.mp distinct
    change ((block.modifyRecord key (Record.moved first last) (Record.timestamp_moved _ _)).reposition rest).getRecord
      time = _ ↔ _
    rw [ih _ distinct, getRecord_modifyRecord]
    by_cases same : time = key
    · subst same
      have absent : ∀ first last, (time, first, last) ∉ rest := fun first last member =>
        fresh (List.mem_map.mpr ⟨(time, first, last), member, rfl⟩)
      simp only [if_true, Option.map_eq_some_iff]
      constructor
      · rintro ⟨moved, ⟨old, found, rfl⟩, ⟨_, _, member, _⟩ | ⟨_, rfl⟩⟩
        · exact absurd member (absent _ _)
        · exact ⟨old, found, Or.inl ⟨first, last, by simp, rfl⟩⟩
      · rintro ⟨old, found, ⟨newFirst, newLast, member, rfl⟩ | ⟨outside, _⟩⟩
        · rcases List.mem_cons.mp member with head | later
          · obtain ⟨-, rfl, rfl⟩ : time = time ∧ newFirst = first ∧ newLast = last := by simpa using head
            exact ⟨_, ⟨old, found, rfl⟩, Or.inr ⟨fresh, rfl⟩⟩
          · exact absurd later (absent _ _)
        · simp at outside
    · simp [same]

theorem recordLengths_keys (block : Block) : block.recordLengths.map Prod.fst = block.records.map Record.timestamp := by
  simp [recordLengths, Function.comp_def]

theorem newPositions_distinct (block : Block) : (block.newPositions.map Prod.fst).Nodup := by
  rw [newPositions, Placement.place_keys, recordLengths_keys]
  refine List.pairwise_map.mpr (block.records_sorted.imp ?_)
  intro first second before
  omega

theorem mem_recordLengths (block : Block) (time length : Nat) :
    (time, length) ∈ block.recordLengths ↔ ∃ record, block.getRecord time = some record ∧ record.length = length := by
  unfold recordLengths
  simp only [List.mem_map, mem_records, Prod.mk.injEq]
  constructor
  · rintro ⟨record, found, rfl, rfl⟩
    exact ⟨record, found, rfl⟩
  · rintro ⟨record, found, rfl⟩
    obtain rfl := getRecord_timestamp found
    exact ⟨record, found, rfl, rfl⟩

theorem newPositions_present (block : Block) (time : Nat) (record : Record) (found : block.getRecord time = some record) :
    ∃ first last, (time, first, last) ∈ block.newPositions := by
  have key : time ∈ block.newPositions.map Prod.fst := by
    rw [newPositions, Placement.place_keys, List.mem_map]
    exact ⟨(time, record.length), (mem_recordLengths block time _).mpr ⟨record, found, rfl⟩, rfl⟩
  obtain ⟨⟨_, first, last⟩, member, rfl⟩ := List.mem_map.mp key
  exact ⟨first, last, member⟩

theorem getRecord_compact (block : Block) (time : Nat) (record : Record) :
    block.compact.getRecord time = some record ↔
      ∃ old first last, block.getRecord time = some old ∧ (time, first, last) ∈ block.newPositions ∧
        record = old.moved first last := by
  rw [compact, getRecord_reposition block _ block.newPositions_distinct]
  constructor
  · rintro ⟨old, found, ⟨first, last, member, rfl⟩ | ⟨outside, _⟩⟩
    · exact ⟨old, first, last, found, member, rfl⟩
    · obtain ⟨first, last, member⟩ := newPositions_present block time old found
      exact absurd (List.mem_map.mpr ⟨_, member, rfl⟩) outside
  · rintro ⟨old, first, last, found, member, rfl⟩
    exact ⟨old, found, Or.inl ⟨first, last, member, rfl⟩⟩

theorem total_recordLengths (block : Block) :
    Placement.total block.recordLengths = sumBy Record.length block.recordIndex := by
  simp [Placement.total, recordLengths, records, sumBy, Function.comp_def]

theorem Accounted.reposition {block : Block} (accounted : block.Accounted) (positions : List (Nat × Nat × Nat))
    (lengths : ∀ position ∈ positions, ∀ record, block.getRecord position.1 = some record →
      position.2.2 - position.2.1 = record.length) :
    (block.reposition positions).Accounted ∧ (block.reposition positions).size = block.size := by
  induction positions generalizing block with
  | nil => exact ⟨accounted, rfl⟩
  | cons position rest ih =>
    have moved := accounted.modifyRecord position.1 (Record.moved position.2.1 position.2.2)
      (Record.timestamp_moved _ _) (lengths position (by simp))
    have next := ih moved ?_
    · rw [size_modifyRecord] at next
      exact next
    · intro other member record found
      rw [getRecord_modifyRecord] at found
      split_ifs at found with same
      · obtain ⟨old, was, rfl⟩ := Option.map_eq_some_iff.mp found
        rw [lengths other (List.mem_cons_of_mem _ member) old was]
        exact (lengths position (by simp) old (same ▸ was)).symm
      · exact lengths other (List.mem_cons_of_mem _ member) record found

theorem newPositions_length (block : Block) (position : Nat × Nat × Nat) (member : position ∈ block.newPositions)
    (record : Record) (found : block.getRecord position.1 = some record) :
    position.2.2 - position.2.1 = record.length := by
  have item := Placement.place_length block.recordLengths 0 position member
  obtain ⟨stored, present, length⟩ := (mem_recordLengths block position.1 _).mp item
  obtain rfl : stored = record := Option.some.inj (present.symm.trans found)
  exact length.symm

theorem Accounted.compact {block : Block} (accounted : block.Accounted) :
    block.compact.Accounted ∧ block.compact.size = block.size :=
  accounted.reposition block.newPositions (newPositions_length block)

theorem Accounted.layout_compact {block : Block} (accounted : block.Accounted) : block.compact.Layout := by
  have bounds (position : Nat × Nat × Nat) (member : position ∈ block.newPositions) :
      position.2.1 ≤ position.2.2 ∧ position.2.2 ≤ block.compact.size := by
    have placed := Placement.place_bounds block.recordLengths 0 position member
    rw [total_recordLengths, ← accounted.size, ← accounted.compact.2] at placed
    omega
  refine { accounted.compact.1 with ordered := ?_, disjoint := ?_, inside := ?_ }
  · intro time record found
    obtain ⟨old, first, last, _, member, rfl⟩ := (getRecord_compact block time record).mp found
    exact (bounds _ member).1
  · intro left right leftRecord rightRecord different leftFound rightFound
    obtain ⟨_, leftFirst, leftLast, _, leftMember, rfl⟩ := (getRecord_compact block left leftRecord).mp leftFound
    obtain ⟨_, rightFirst, rightLast, _, rightMember, rfl⟩ := (getRecord_compact block right rightRecord).mp rightFound
    have apart := Placement.place_apart block.recordLengths 0 _ _ leftMember rightMember different
    rw [Set.disjoint_left]
    intro position inLeft inRight
    simp only [Record.range, Record.moved, Set.mem_Ico] at inLeft inRight apart
    omega
  · intro time record found
    obtain ⟨_, first, last, _, member, rfl⟩ := (getRecord_compact block time record).mp found
    exact Set.Ico_subset_Ico (Nat.zero_le _) (bounds _ member).2

end Positions

end Block

end ReductStore
