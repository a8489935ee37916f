import ReductStore.Storage.Wal
import ReductStore.Storage.Wire

set_option autoImplicit false

namespace ReductStore.Wal

open BigEndian

section Appending

variable [Codec]

theorem frame_eq (entry : WalEntry) : frame entry = body entry ++ [stopMarker] := by
  simp [frame, body]

def LogFile.Holds (log : LogFile) (entries : List WalEntry) : Prop :=
  (∃ padding, log.bytes = entries.flatMap body ++ (stopMarker :: List.replicate padding 0)) ∧
    log.position = (entries.flatMap body).length + 1

theorem writePosition_holds (log : LogFile) (entries : List WalEntry) (holds : log.Holds entries) :
    writePosition log = (entries.flatMap body).length := by
  simp [writePosition, holds.2]

theorem append_created (entry : WalEntry) : (append none entry).Holds [entry] := by
  have start : writePosition created = 0 := rfl
  have zeros : created.bytes = List.replicate walFileSize 0 := by simp [created, File.setLen]
  have written := File.writeAt_append [] (List.replicate walFileSize 0) (frame entry)
  constructor
  · refine ⟨walFileSize - (frame entry).length, ?_⟩
    simp only [append, Option.getD_none, start, zeros]
    simpa [frame_eq] using written
  · simp only [append, Option.getD_none, start]
    simp [frame_eq]

theorem append_holds (log : LogFile) (entries : List WalEntry) (holds : log.Holds entries) (entry : WalEntry) :
    (append (some log) entry).Holds (entries ++ [entry]) := by
  have start := writePosition_holds log entries holds
  obtain ⟨⟨padding, bytes⟩, _⟩ := holds
  have written := File.writeAt_append (entries.flatMap body) (stopMarker :: List.replicate padding 0) (frame entry)
  constructor
  · refine ⟨padding + 1 - (frame entry).length, ?_⟩
    simp only [append, Option.getD_some, start, bytes, written]
    have overwritten : (stopMarker :: List.replicate padding 0).drop (frame entry).length =
        List.replicate (padding + 1 - (frame entry).length) 0 := by
      rw [frame_eq, List.length_append, List.length_singleton, List.drop_succ_cons, List.drop_replicate]
      congr 1
      omega
    rw [overwritten]
    simp [frame_eq]
  · simp only [append, Option.getD_some, start]
    simp [frame_eq]
    omega

theorem appendAll_holds (entries : List WalEntry) (log : LogFile) (before : List WalEntry)
    (holds : log.Holds before) :
    ∃ after, entries.foldl (fun log entry => some (append log entry)) (some log) = some after ∧
      after.Holds (before ++ entries) := by
  induction entries generalizing log before with
  | nil => exact ⟨log, rfl, by simpa using holds⟩
  | cons entry entries ih =>
    have next := append_holds log before holds entry
    obtain ⟨after, run, holds⟩ := ih (append (some log) entry) (before ++ [entry]) next
    exact ⟨after, run, by simpa using holds⟩

theorem appendAll_cons (entry : WalEntry) (entries : List WalEntry) :
    ∃ log, appendAll (entry :: entries) = some log ∧ log.Holds (entry :: entries) :=
  appendAll_holds entries (append none entry) [entry] (append_created entry)

end Appending

section Torn

variable [Codec]

theorem readEntry_mem (path : String) (typeCode : UInt8) (rest : List UInt8) (byte : UInt8)
    (member : byte ∈ (readEntry path typeCode rest).2) :
    byte ∈ rest.drop (16 + ofBytes (rest.take 8)) := by
  simp only [readEntry] at member
  split_ifs at member
  all_goals try simp at member
  have position : 8 + ofBytes (rest.take 8) + 8 = 16 + ofBytes (rest.take 8) := by omega
  rwa [position] at member

theorem read_zeros (path : String) (bytes : List UInt8) (zeros : ∀ byte ∈ bytes, byte = 0) (entries : List WalEntry) :
    read path bytes ≠ .ok entries := by
  induction length : bytes.length using Nat.strong_induction_on generalizing bytes entries with
  | _ count ih =>
    cases bytes with
    | nil => simp [read]
    | cons typeCode rest =>
      obtain rfl : typeCode = 0 := zeros typeCode (by simp)
      have shorter := readEntry_shorter path 0 rest
      simp only [List.length_cons] at length
      have left (byte : UInt8) (member : byte ∈ (readEntry path 0 rest).2) : byte = 0 :=
        zeros byte (List.mem_cons_of_mem _ (List.mem_of_mem_drop (readEntry_mem path 0 rest byte member)))
      intro success
      rw [read, if_neg (by decide)] at success
      cases first : (readEntry path 0 rest).1 with
      | entry entry =>
        cases next : read path (readEntry path 0 rest).2 with
        | ok found => exact ih _ (by omega) _ left found rfl next
        | error failure => simp [first, next, ReadResult.push] at success
        | panic => simp [first, next, ReadResult.push] at success
      | error failure => simp [first] at success
      | panic => simp [first] at success

theorem length_body (entry : WalEntry) : (body entry).length = 17 + entry.data.length := by
  simp [body, WalEntry.encode, checksum]
  omega

theorem length_frame (entry : WalEntry) : (frame entry).length = 18 + entry.data.length := by
  rw [frame_eq, List.length_append, length_body, List.length_singleton]
  omega

theorem read_torn (path : String) (entry : WalEntry) (faithful : entry.Faithful) (cut padding : Nat)
    (begun : 0 < cut) (torn : cut < (frame entry).length) (entries : List WalEntry) :
    read path ((frame entry).take cut ++ List.replicate padding 0) ≠ .ok entries := by
  obtain ⟨count, rfl⟩ : ∃ count, cut = count + 1 := ⟨cut - 1, by omega⟩
  set rest := toBytes entry.data.length ++ (entry.data ++ (checksum entry ++ [stopMarker])) with restEq
  have bytes : frame entry = entry.typeCode :: rest := by simp [frame, WalEntry.encode, rest]
  set tail := rest.take count ++ List.replicate padding 0 with tailEq
  -- the entry that the reader skips reaches beyond the bytes that were written
  have reach : count ≤ 16 + ofBytes (tail.take 8) := by
    by_cases short : count < 8
    · omega
    · have header : tail.take 8 = toBytes entry.data.length := by
        have written : 8 ≤ (rest.take count).length := by
          simp [restEq]
          omega
        rw [tailEq, List.take_append_of_le_length written, List.take_take, Nat.min_eq_left (by omega)]
        exact List.take_left' (length_toBytes _)
      have length := length_frame entry
      rw [header, ofBytes_toBytes _ faithful.length]
      omega
  have left (byte : UInt8) (member : byte ∈ (readEntry path entry.typeCode tail).2) : byte = 0 := by
    have later := readEntry_mem path entry.typeCode tail byte member
    have beyond : (rest.take count).length ≤ 16 + ofBytes (tail.take 8) := by
      simp only [List.length_take]
      omega
    rw [tailEq, List.drop_append, List.drop_eq_nil_of_le beyond] at later
    simp only [List.nil_append, List.drop_replicate] at later
    exact List.eq_of_mem_replicate later
  have running : entry.typeCode ≠ stopMarker := entry.typeCode_ne_stop
  intro success
  rw [bytes, List.take_succ_cons, List.cons_append, ← tailEq, read, if_neg running] at success
  cases first : (readEntry path entry.typeCode tail).1 with
  | entry found =>
    cases next : read path (readEntry path entry.typeCode tail).2 with
    | ok more => exact read_zeros path _ left more next
    | error failure => simp [first, next, ReadResult.push] at success
    | panic => simp [first, next, ReadResult.push] at success
  | error failure => simp [first] at success
  | panic => simp [first] at success

def recovered : ReadResult → List WalEntry
  | .ok entries => entries
  | .error _ => []
  | .panic => []

omit [Codec] in
theorem recovered_ok (entries found : List WalEntry) :
    entries <+: recovered (entries.foldr ReadResult.push (.ok found)) := by
  rw [push_ok]
  exact List.prefix_append entries found

omit [Codec] in
theorem recovered_failed (entries : List WalEntry) (result : ReadResult) (failed : ∀ read, result ≠ .ok read) :
    recovered (entries.foldr ReadResult.push result) = [] := by
  cases all : entries.foldr ReadResult.push result with
  | ok found => exact absurd all (push_not_ok entries result failed found)
  | error failure => rfl
  | panic => rfl

theorem tornAppend_bytes (entry : WalEntry) (entries : List WalEntry) (next : WalEntry) (cut : Nat)
    (begun : 0 < cut) :
    ∃ padding, tornAppend (appendAll (entry :: entries)) next cut =
      (entry :: entries).flatMap body ++ ((frame next).take cut ++ List.replicate padding 0) := by
  obtain ⟨log, run, holds⟩ := appendAll_cons entry entries
  have start := writePosition_holds log _ holds
  obtain ⟨⟨padding, bytes⟩, _⟩ := holds
  have filled : 0 < ((frame next).take cut).length := by
    rw [List.length_take, length_frame]
    omega
  obtain ⟨count, length⟩ : ∃ count, ((frame next).take cut).length = count + 1 :=
    ⟨((frame next).take cut).length - 1, by omega⟩
  refine ⟨padding - count, ?_⟩
  simp only [tornAppend, run, Option.getD_some, start, bytes]
  rw [File.writeAt_append, length, List.drop_succ_cons, List.drop_replicate]

theorem tornAppend_recovered_iff (path : String) (entries : List WalEntry) (next : WalEntry) (cut : Nat)
    (faithful : ∀ entry ∈ entries, entry.Faithful) (nextFaithful : next.Faithful) :
    entries <+: recovered (read path (tornAppend (appendAll entries) next cut)) ↔
      entries = [] ∨ cut = 0 ∨ (frame next).length ≤ cut := by
  cases entries with
  | nil => simp
  | cons entry rest =>
    obtain rfl | begun := Nat.eq_zero_or_pos cut
    · obtain ⟨log, run, holds⟩ := appendAll_cons entry rest
      obtain ⟨⟨padding, bytes⟩, _⟩ := holds
      have untouched : tornAppend (some log) next 0 = log.bytes := by simp [tornAppend, File.writeAt]
      have stop : read path (stopMarker :: List.replicate padding 0) = .ok [] := by rw [read, if_pos rfl]
      simp only [run, untouched, bytes, read_bodies path _ faithful, stop, recovered_ok]
      simp
    · obtain ⟨padding, bytes⟩ := tornAppend_bytes entry rest next cut begun
      rw [bytes, read_bodies path _ faithful]
      by_cases complete : (frame next).length ≤ cut
      · have stop : read path ((frame next).take cut ++ List.replicate padding 0) = .ok [next] := by
          rw [List.take_of_length_le complete, frame_eq, List.append_assoc, read_body path next nextFaithful]
          simp [read, ReadResult.push]
        simp only [stop, recovered_ok, complete, or_true]
      · have torn := read_torn path next nextFaithful cut padding begun (by omega)
        rw [recovered_failed _ _ torn]
        simp [complete, begun.ne']

end Torn

def writtenRecord (time first last : Nat) : Record :=
  { timestamp := time, beginPos := first, endPos := last, state := .finished, labels := [], contentType := "" }

theorem tornAppend_loses_log :
    ¬ [WalEntry.writeRecord (writtenRecord 1 0 10)] <+: recovered (read "1.wal"
      (tornAppend (appendAll [.writeRecord (writtenRecord 1 0 10)]) (.writeRecord (writtenRecord 2 10 20)) 1)) := by
  have first : (WalEntry.writeRecord (writtenRecord 1 0 10)).Faithful := by
    constructor <;> decide +kernel
  have second : (WalEntry.writeRecord (writtenRecord 2 10 20)).Faithful := by
    constructor <;> decide +kernel
  obtain ⟨padding, bytes⟩ := tornAppend_bytes (.writeRecord (writtenRecord 1 0 10)) []
    (.writeRecord (writtenRecord 2 10 20)) 1 (by decide)
  have torn := read_torn "1.wal" _ second 1 padding (by decide) (by rw [length_frame]; omega)
  rw [bytes, read_bodies "1.wal" _ (by simpa using first), recovered_failed _ _ torn]
  simp

theorem tornAppend_recovered_at_record :
    [WalEntry.writeRecord (writtenRecord 1 0 10)] <+: recovered (read "1.wal"
      (tornAppend (appendAll [.writeRecord (writtenRecord 1 0 10)]) (.writeRecord (writtenRecord 2 10 20)) 0)) := by
  have first : (WalEntry.writeRecord (writtenRecord 1 0 10)).Faithful := by
    constructor <;> decide +kernel
  have second : (WalEntry.writeRecord (writtenRecord 2 10 20)).Faithful := by
    constructor <;> decide +kernel
  exact (tornAppend_recovered_iff "1.wal" [.writeRecord (writtenRecord 1 0 10)] (.writeRecord (writtenRecord 2 10 20)) 0
    (by simpa using first) second).mpr (Or.inr (Or.inl rfl))

end ReductStore.Wal
