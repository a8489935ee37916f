import ReductStore.Storage.RemoveRecords
import ReductStore.Storage.Layout

set_option autoImplicit false

namespace ReductStore.BlockManager

open TreeMap

/-- How many bytes a call of `File::read` is ready to give. The contract of `Read` asks only for one byte. -/
structure ReadLimits where
  limit : Nat → Nat → Nat
  positive : ∀ time position, 0 < limit time position

section Copy

variable (path : String) (file : Option File)

def readInPart (limit offset contentSize readBytes : Nat) : Except ReadFailure (List UInt8 × Nat) :=
  let chunkSize := min (contentSize - readBytes) maxIoBufferSize
  match file with
  | none =>
    .error { unexpectedEof := false, failure := internalServerError ("File " ++ path ++ " does not exist") }
  | some content =>
    let bytes := File.range content (offset + readBytes) (offset + readBytes + min chunkSize limit)
    if bytes.length = 0 then
      .error { unexpectedEof := true, failure := internalServerError ("Failed to read record chunk from " ++ path ++ ": EOF") }
    else .ok (File.setLen bytes chunkSize, bytes.length)

def copyRecordInPart (limits : Nat → Nat) (offset contentSize : Nat) :
    Nat → Nat → List (List UInt8) × Except ReadFailure Nat
  | 0, readBytes => ([], .ok readBytes)
  | turns + 1, readBytes =>
    if readBytes < contentSize then
      match readInPart path file (limits readBytes) offset contentSize readBytes with
      | .error failure => ([], .error failure)
      | .ok (buffer, read) =>
        -- the position grows by what was read, the file by the whole buffer
        let (buffers, result) := copyRecordInPart limits offset contentSize turns (readBytes + read)
        (buffer :: buffers, result)
    else ([], .ok readBytes)

def copyRecordsInPart (reads : ReadLimits) :
    List Record → Nat → List (List UInt8) × Except ReadFailure (List (Nat × Nat × Nat))
  | [], _ => ([], .ok [])
  | record :: rest, totalOffset =>
    match copyRecordInPart path file (reads.limit record.timestamp) record.beginPos record.length record.length 0 with
    | (buffers, .error failure) => (buffers, .error failure)
    | (buffers, .ok readBytes) =>
      let (more, result) := copyRecordsInPart reads rest (totalOffset + readBytes)
      (buffers ++ more, result.map ((record.timestamp, totalOffset, totalOffset + readBytes) :: ·))

end Copy

def FillsFrom (limits : Nat → Nat) (contentSize readBytes : Nat) : Prop :=
  ∀ chunk : Nat, readBytes + chunk * maxIoBufferSize < contentSize →
    min (contentSize - (readBytes + chunk * maxIoBufferSize)) maxIoBufferSize ≤
      limits (readBytes + chunk * maxIoBufferSize)

def ReadLimits.Fills (reads : ReadLimits) (record : Record) : Prop :=
  FillsFrom (reads.limit record.timestamp) record.length 0

section Full

variable (path : String) (file : Option File)

def ReadLimits.full : ReadLimits := { limit := fun _ _ => maxIoBufferSize, positive := fun _ _ => by decide }

theorem readInPart_full (offset contentSize readBytes : Nat) :
    readInPart path file maxIoBufferSize offset contentSize readBytes =
      readInChunks path file offset contentSize readBytes := by
  cases file <;> simp only [readInPart, readInChunks, min_assoc, min_self]

theorem copyRecord_full (offset contentSize turns readBytes : Nat) :
    copyRecordInPart path file (fun _ => maxIoBufferSize) offset contentSize turns readBytes =
      copyRecord path file offset contentSize turns readBytes := by
  induction turns generalizing readBytes with
  | zero => rfl
  | succ turns ih =>
    by_cases left : readBytes < contentSize
    · cases read : readInChunks path file offset contentSize readBytes <;>
        simp only [copyRecordInPart, copyRecord, if_pos left, readInPart_full, ih, read]
    · simp only [copyRecordInPart, copyRecord, if_neg left]

theorem copyRecords_full (records : List Record) (totalOffset : Nat) :
    copyRecordsInPart path file .full records totalOffset = copyRecords path file records totalOffset := by
  induction records generalizing totalOffset with
  | nil => rfl
  | cons record rest ih =>
    have same : copyRecordInPart path file (ReadLimits.full.limit record.timestamp) record.beginPos record.length
        record.length 0 = copyRecord path file record.beginPos record.length record.length 0 :=
      copyRecord_full path file _ _ _ _
    rcases copied : copyRecord path file record.beginPos record.length record.length 0 with ⟨buffers, _ | readBytes⟩ <;>
      simp only [copyRecordsInPart, copyRecords, same, ih, copied]

theorem fills_full (record : Record) : ReadLimits.full.Fills record := fun _ _ => Nat.min_le_right _ _

end Full

def Readable (content : File) (record : Record) : Prop :=
  record.beginPos < record.endPos → record.endPos ≤ content.length

section Chunks

variable (path : String) (content : File) (limits : Nat → Nat) (offset contentSize : Nat)

theorem length_range (first last : Nat) : (File.range content first last).length = min last content.length - first := by
  simp [File.range]

theorem fillsFrom_step {readBytes : Nat} (left : readBytes < contentSize) :
    FillsFrom limits contentSize readBytes ↔
      min (contentSize - readBytes) maxIoBufferSize ≤ limits readBytes ∧
        FillsFrom limits contentSize (readBytes + min (contentSize - readBytes) maxIoBufferSize) := by
  have next (chunk : Nat) : readBytes + (chunk + 1) * maxIoBufferSize =
      readBytes + maxIoBufferSize + chunk * maxIoBufferSize := by ring
  by_cases last : contentSize - readBytes ≤ maxIoBufferSize
  · have done : readBytes + (contentSize - readBytes) = contentSize := by omega
    rw [min_eq_left last, done]
    constructor
    · intro fills
      refine ⟨by simpa [min_eq_left last] using fills 0 (by simpa using left), fun chunk more => ?_⟩
      omega
    · rintro ⟨first, _⟩ chunk more
      cases chunk with
      | zero => simpa [min_eq_left last] using first
      | succ chunk =>
        rw [next] at more
        omega
  · rw [min_eq_right (by omega)]
    constructor
    · intro fills
      refine ⟨by simpa [min_eq_right (Nat.le_of_not_le last)] using fills 0 (by simpa using left), fun chunk more => ?_⟩
      have later := fills (chunk + 1) (by rwa [next])
      rwa [next] at later
    · rintro ⟨first, rest⟩ chunk more
      cases chunk with
      | zero => simpa [min_eq_right (Nat.le_of_not_le last)] using first
      | succ chunk =>
        rw [next] at more ⊢
        exact rest chunk more

theorem readInPart_ok {file : Option File} {limit readBytes size : Nat} {buffer : List UInt8}
    (read : readInPart path file limit offset contentSize readBytes = .ok (buffer, size)) :
    0 < size ∧ readBytes + size ≤ max readBytes contentSize ∧
      ∀ content, file = some content → offset + readBytes + size ≤ content.length := by
  cases file with
  | none => cases read
  | some content =>
    have length := length_range content (offset + readBytes)
      (offset + readBytes + min (min (contentSize - readBytes) maxIoBufferSize) limit)
    simp only [readInPart] at read
    split_ifs at read with empty
    obtain ⟨_, rfl⟩ := Prod.mk.inj (Except.ok.inj read)
    simp only [Option.some.injEq, forall_eq']
    omega

theorem readInPart_error {limit readBytes : Nat} {failure : ReadFailure}
    (read : readInPart path (some content) limit offset contentSize readBytes = .error failure) :
    failure.unexpectedEof = true := by
  simp only [readInPart] at read
  split_ifs at read
  rw [← Except.error.inj read]

theorem readInChunks_bounds {path : String} {file : Option File} {offset contentSize readBytes size : Nat}
    {buffer : List UInt8} (read : readInChunks path file offset contentSize readBytes = .ok (buffer, size)) :
    0 < size ∧ readBytes + size ≤ max readBytes contentSize := by
  rw [← readInPart_full] at read
  obtain ⟨positive, bounded, _⟩ := readInPart_ok path offset contentSize read
  exact ⟨positive, bounded⟩

theorem copyRecordInPart_ok (file : Option File) (turns readBytes : Nat) (started : readBytes ≤ contentSize)
    (enough : contentSize ≤ readBytes + turns) (buffers : List (List UInt8)) (copied : Nat)
    (success : copyRecordInPart path file limits offset contentSize turns readBytes = (buffers, .ok copied)) :
    copied = contentSize ∧
      (readBytes < contentSize → ∀ content, file = some content → offset + contentSize ≤ content.length) := by
  induction turns generalizing readBytes buffers with
  | zero =>
    simp only [copyRecordInPart, Prod.mk.injEq, Except.ok.injEq] at success
    exact ⟨by omega, fun left => by omega⟩
  | succ turns ih =>
    by_cases left : readBytes < contentSize
    · cases read : readInPart path file (limits readBytes) offset contentSize readBytes with
      | error failure => simp [copyRecordInPart, left, read] at success
      | ok chunk =>
        obtain ⟨positive, bounded, within⟩ := readInPart_ok path offset contentSize read
        simp only [copyRecordInPart, if_pos left, read, Prod.mk.injEq] at success
        obtain ⟨whole, rest⟩ := ih (readBytes + chunk.2) (by omega) (by omega) _ (Prod.ext rfl success.2)
        refine ⟨whole, fun _ content stored => ?_⟩
        have here := within content stored
        by_cases more : readBytes + chunk.2 < contentSize
        · exact rest more content stored
        · omega
    · simp only [copyRecordInPart, if_neg left, Prod.mk.injEq, Except.ok.injEq] at success
      exact ⟨by omega, fun more => absurd more left⟩

theorem copyRecordInPart_error (turns readBytes : Nat) (buffers : List (List UInt8)) (failure : ReadFailure)
    (fails : copyRecordInPart path (some content) limits offset contentSize turns readBytes = (buffers, .error failure)) :
    failure.unexpectedEof = true := by
  induction turns generalizing readBytes buffers with
  | zero => simp [copyRecordInPart] at fails
  | succ turns ih =>
    by_cases left : readBytes < contentSize
    · cases read : readInPart path (some content) (limits readBytes) offset contentSize readBytes with
      | error other =>
        simp only [copyRecordInPart, if_pos left, read, Prod.mk.injEq, Except.error.injEq] at fails
        exact fails.2 ▸ readInPart_error path content offset contentSize read
      | ok chunk =>
        simp only [copyRecordInPart, if_pos left, read, Prod.mk.injEq] at fails
        exact ih _ _ (Prod.ext rfl fails.2)
    · simp [copyRecordInPart, left] at fails

theorem copyRecordInPart_fits (positive : ∀ position, 0 < limits position)
    (fits : contentSize = 0 ∨ offset + contentSize ≤ content.length) (turns readBytes : Nat)
    (started : readBytes ≤ contentSize) (enough : contentSize ≤ readBytes + turns) :
    ∃ buffers, copyRecordInPart path (some content) limits offset contentSize turns readBytes = (buffers, .ok contentSize) ∧
      (FillsFrom limits contentSize readBytes →
        buffers.flatten = File.range content (offset + readBytes) (offset + contentSize)) ∧
      (¬ FillsFrom limits contentSize readBytes →
        ∃ index, readBytes + index < contentSize ∧ buffers.flatten[index]? = some 0) := by
  have ended : File.range content (offset + contentSize) (offset + contentSize) = [] := by
    simp [← List.length_eq_zero_iff, length_range]
  have finished : FillsFrom limits contentSize contentSize := fun chunk more => by omega
  induction turns generalizing readBytes with
  | zero =>
    obtain rfl : readBytes = contentSize := by omega
    exact ⟨[], rfl, fun _ => by simp [ended], fun short => absurd finished short⟩
  | succ turns ih =>
    by_cases left : readBytes < contentSize
    swap
    · obtain rfl : readBytes = contentSize := by omega
      exact ⟨[], by simp only [copyRecordInPart, if_neg left], fun _ => by simp [ended], fun short => absurd finished short⟩
    set chunk := min (contentSize - readBytes) maxIoBufferSize with chunkEq
    have some_ : 0 < chunk := by
      simp only [chunkEq, maxIoBufferSize]
      omega
    have granted := positive readBytes
    set count := min chunk (limits readBytes) with countEq
    set bytes := File.range content (offset + readBytes) (offset + readBytes + count) with bytesEq
    have size : bytes.length = count := by
      rw [bytesEq, length_range]
      omega
    have read : readInPart path (some content) (limits readBytes) offset contentSize readBytes =
        .ok (File.setLen bytes chunk, count) := by
      simp only [readInPart, ← chunkEq, ← countEq, ← bytesEq, size, if_neg (show ¬ count = 0 by omega)]
    obtain ⟨buffers, copied, whole, broken⟩ := ih (readBytes + count) (by omega) (by omega)
    refine ⟨File.setLen bytes chunk :: buffers, by simp only [copyRecordInPart, if_pos left, read, copied], ?_, ?_⟩
    · intro fills
      obtain ⟨full, rest⟩ := (fillsFrom_step limits contentSize left).mp fills
      have all : count = chunk := by omega
      have exact_ : File.setLen bytes chunk = bytes := by simp [File.setLen, size, all]
      rw [List.flatten_cons, whole (all ▸ rest), exact_]
      apply List.ext_getElem?
      intro index
      rw [List.getElem?_append, size]
      simp only [bytesEq, File.get_range]
      split_ifs <;> first | rfl | omega | (congr 1; omega)
    · intro short
      by_cases full : chunk ≤ limits readBytes
      · have all : count = chunk := by omega
        obtain ⟨index, within, zero⟩ := broken fun rest => by
          rw [all] at rest
          exact short ((fillsFrom_step limits contentSize left).mpr ⟨full, rest⟩)
        refine ⟨chunk + index, by omega, ?_⟩
        rw [List.flatten_cons, List.getElem?_append_right (by simp [File.length_setLen]), File.length_setLen,
          Nat.add_sub_cancel_left]
        exact zero
      · refine ⟨count, by omega, ?_⟩
        have padded : bytes[count]? = none := List.getElem?_eq_none (by omega)
        rw [List.flatten_cons, List.getElem?_append_left (by rw [File.length_setLen]; omega), File.get_setLen,
          if_pos (by omega), padded]
        rfl

end Chunks

def contentsOf (content : File) (records : List Record) : List (Nat × List UInt8) :=
  records.map (fun record => (record.timestamp, File.range content record.beginPos record.endPos))

theorem range_length (content : File) (record : Record) :
    File.range content record.beginPos (record.beginPos + record.length) =
      File.range content record.beginPos record.endPos := by
  by_cases ordered : record.beginPos ≤ record.endPos
  · rw [Record.length, Nat.add_sub_cancel' ordered]
  · have empty (last : Nat) (before : last ≤ record.beginPos) : File.range content record.beginPos last = [] := by
      rw [← List.length_eq_zero_iff, length_range]
      omega
    rw [empty _ (by simp only [Record.length]; omega), empty _ (by omega)]

theorem readable_fits {content : File} {record : Record} (readable : Readable content record) :
    record.length = 0 ∨ record.beginPos + record.length ≤ content.length := by
  simp only [Readable, Record.length] at readable ⊢
  omega

section Records

variable (path : String) (content : File) (reads : ReadLimits) (records : List Record) (totalOffset : Nat)

theorem copyRecordsInPart_ok (file : Option File) (buffers : List (List UInt8)) (positions : List (Nat × Nat × Nat))
    (success : copyRecordsInPart path file reads records totalOffset = (buffers, .ok positions)) :
    positions = Placement.place totalOffset (records.map fun record => (record.timestamp, record.length)) ∧
      ∀ content, file = some content → ∀ record ∈ records, Readable content record := by
  induction records generalizing totalOffset buffers positions with
  | nil =>
    simp only [copyRecordsInPart, Prod.mk.injEq, Except.ok.injEq] at success
    exact ⟨success.2.symm, by simp⟩
  | cons record rest ih =>
    rcases copied : copyRecordInPart path file (reads.limit record.timestamp) record.beginPos record.length
      record.length 0 with ⟨bytes, _ | readBytes⟩
    · simp [copyRecordsInPart, copied] at success
    rcases others : copyRecordsInPart path file reads rest (totalOffset + readBytes) with ⟨more, _ | later⟩
    · simp [copyRecordsInPart, copied, others, Except.map] at success
    obtain ⟨rfl, ended⟩ := copyRecordInPart_ok path _ record.beginPos record.length file record.length 0 (Nat.zero_le _)
      (by omega) bytes readBytes copied
    simp only [copyRecordsInPart, copied, others, Except.map, Prod.mk.injEq, Except.ok.injEq] at success
    obtain ⟨places, readable⟩ := ih _ _ _ others
    refine ⟨by rw [← success.2, places]; rfl, fun content stored => List.forall_mem_cons.mpr ⟨?_, readable content stored⟩⟩
    intro filled
    have within := ended (by simp only [Record.length]; omega) content stored
    simp only [Record.length] at within
    omega

theorem copyRecordsInPart_error (buffers : List (List UInt8)) (failure : ReadFailure)
    (fails : copyRecordsInPart path (some content) reads records totalOffset = (buffers, .error failure)) :
    failure.unexpectedEof = true := by
  induction records generalizing totalOffset buffers with
  | nil => simp [copyRecordsInPart] at fails
  | cons record rest ih =>
    rcases copied : copyRecordInPart path (some content) (reads.limit record.timestamp) record.beginPos record.length
      record.length 0 with ⟨bytes, other | readBytes⟩
    · simp only [copyRecordsInPart, copied, Prod.mk.injEq, Except.error.injEq] at fails
      exact fails.2 ▸ copyRecordInPart_error path content _ _ _ _ _ _ _ copied
    rcases others : copyRecordsInPart path (some content) reads rest (totalOffset + readBytes) with ⟨more, other | later⟩
    · simp only [copyRecordsInPart, copied, others, Except.map, Prod.mk.injEq, Except.error.injEq] at fails
      obtain ⟨_, rfl⟩ := fails
      exact ih _ _ others
    · simp [copyRecordsInPart, copied, others, Except.map] at fails

theorem copyRecordsInPart_readable (readable : ∀ record ∈ records, Readable content record) :
    ∃ buffers, copyRecordsInPart path (some content) reads records totalOffset =
        (buffers, .ok (Placement.place totalOffset (records.map fun record => (record.timestamp, record.length)))) ∧
      ((∀ record ∈ records, reads.Fills record) → buffers.flatten = Placement.contents (contentsOf content records)) ∧
      (¬ (∀ record ∈ records, reads.Fills record) →
        ∃ slot ∈ Placement.place totalOffset (records.map fun record => (record.timestamp, record.length)), ∃ index,
          slot.2.1 ≤ totalOffset + index ∧ totalOffset + index < slot.2.2 ∧ buffers.flatten[index]? = some 0) := by
  induction records generalizing totalOffset with
  | nil => exact ⟨[], rfl, fun _ => rfl, fun short => absurd (by simp) short⟩
  | cons record rest ih =>
    obtain ⟨buffers, copied, whole, broken⟩ := copyRecordInPart_fits path content (reads.limit record.timestamp)
      record.beginPos record.length (reads.positive record.timestamp) (readable_fits (readable record (by simp)))
      record.length 0 (Nat.zero_le _) (by omega)
    obtain ⟨more, others, wholeRest, brokenRest⟩ := ih (totalOffset + record.length)
      (fun other member => readable other (List.mem_cons_of_mem _ member))
    refine ⟨buffers ++ more, by simp only [copyRecordsInPart, copied, others]; rfl, ?_, ?_⟩
    · intro fills
      rw [List.flatten_append, whole (fills record (by simp)),
        wholeRest fun other member => fills other (List.mem_cons_of_mem _ member), Nat.add_zero, range_length]
      rfl
    · intro short
      simp only [List.map_cons, Placement.place, List.flatten_append]
      by_cases first : reads.Fills record
      · obtain ⟨slot, placed, index, after, before, zero⟩ := brokenRest fun others =>
          short (List.forall_mem_cons.mpr ⟨first, others⟩)
        have length : buffers.flatten.length = record.length := by
          have fits := readable_fits (readable record (by simp))
          rw [whole first, length_range]
          omega
        refine ⟨slot, List.mem_cons_of_mem _ placed, record.length + index, by omega, by omega, ?_⟩
        rw [List.getElem?_append_right (by omega), length, Nat.add_sub_cancel_left]
        exact zero
      · obtain ⟨index, within, zero⟩ := broken first
        refine ⟨_, List.mem_cons_self, index, by simp, by simpa using within, ?_⟩
        rw [List.getElem?_append_left (List.getElem?_eq_some_iff.mp zero).1]
        exact zero

theorem copyRecords_whole (readable : ∀ record ∈ records, Readable content record) :
    ∃ buffers, copyRecords path (some content) records totalOffset =
        (buffers, .ok (Placement.place totalOffset (records.map fun record => (record.timestamp, record.length)))) ∧
      buffers.flatten = Placement.contents (contentsOf content records) := by
  obtain ⟨buffers, copied, whole, _⟩ := copyRecordsInPart_readable path content .full records totalOffset readable
  rw [copyRecords_full] at copied
  exact ⟨buffers, copied, whole fun record _ => fills_full record⟩

theorem copyRecords_ok (file : Option File) (buffers : List (List UInt8)) (positions : List (Nat × Nat × Nat))
    (success : copyRecords path file records totalOffset = (buffers, .ok positions)) :
    positions = Placement.place totalOffset (records.map fun record => (record.timestamp, record.length)) := by
  rw [← copyRecords_full] at success
  exact (copyRecordsInPart_ok path .full records totalOffset file buffers positions success).1

theorem copyRecords_short (short : ∃ record ∈ records, ¬ Readable content record) :
    ∃ buffers failure, copyRecords path (some content) records totalOffset = (buffers, .error failure) ∧
      failure.unexpectedEof = true := by
  rw [← copyRecords_full]
  rcases copied : copyRecordsInPart path (some content) .full records totalOffset with ⟨buffers, failure | positions⟩
  · exact ⟨buffers, failure, rfl, copyRecordsInPart_error path content .full records totalOffset buffers failure copied⟩
  · obtain ⟨record, member, unreadable⟩ := short
    have readable := (copyRecordsInPart_ok path .full records totalOffset (some content) buffers positions copied).2
    exact absurd (readable content rfl record member) unreadable

end Records

theorem range_compacted (block : Block) (content tail : File)
    (readable : ∀ record ∈ block.records, Readable content record) (slot : Nat × Nat × Nat)
    (placed : slot ∈ block.newPositions) (record : Record) (found : block.getRecord slot.1 = some record) :
    File.range (Placement.contents (contentsOf content block.records) ++ tail) slot.2.1 slot.2.2 =
      File.range content record.beginPos record.endPos := by
  have lengths : Placement.lengths (contentsOf content block.records) = block.recordLengths := by
    simp only [Placement.lengths, contentsOf, Block.recordLengths, List.map_map]
    refine List.map_congr_left fun stored member => ?_
    have bytes := readable stored member
    simp only [Readable] at bytes
    simp only [Function.comp_apply, length_range, Record.length, Prod.mk.injEq, true_and]
    omega
  have copied := Placement.range_contents (contentsOf content block.records) [] tail slot (by rw [lengths]; exact placed)
  simp only [contentsOf, List.mem_map, Prod.mk.injEq, List.nil_append] at copied
  obtain ⟨stored, member, time, bytes⟩ := copied
  have present := (Block.mem_records block stored).mp member
  rw [time, found, Option.some.injEq] at present
  rw [present, bytes]
  rfl

end ReductStore.BlockManager
