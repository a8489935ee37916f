import ReductStore.Condition.MachineInt
import ReductStore.Storage.Replay
import ReductStore.Storage.Wire

set_option autoImplicit false

namespace ReductStore

open Condition TreeMap

namespace Block

variable [Codec]

def insertOrUpdateIn (build : Build) (block : Block) (record : Record) : Option Block :=
  match block.getRecord record.timestamp with
  | some existing => do
    let size ← (build.subU64 existing.endPos existing.beginPos).bind (build.subU64 block.size ·)
    let size ← (build.subU64 record.endPos record.beginPos).bind (build.addU64 size ·)
    let metadataSize ← build.addU64 (block.metadataSize - min block.metadataSize existing.encodedLen) record.encodedLen
    some { block.insertOrUpdateRecord record with size, recordCount := block.recordCount, metadataSize }
  | none => do
    let size ← (build.subU64 record.endPos record.beginPos).bind (build.addU64 block.size ·)
    let recordCount ← build.addU64 block.recordCount 1
    let metadataSize ← build.addU64 block.metadataSize record.encodedLen
    some { block.insertOrUpdateRecord record with size, recordCount, metadataSize }

def removeRecordIn (build : Build) (block : Block) (timestamp : Nat) : Option Block :=
  match block.getRecord timestamp with
  | some record => do
    let size ← (build.subU64 record.endPos record.beginPos).bind (build.subU64 block.size ·)
    let recordCount ← build.subU64 block.recordCount 1
    some { block.removeRecord timestamp with
      size, recordCount, metadataSize := block.metadataSize - min block.metadataSize record.encodedLen }
  | none => some block

end Block

section Sums

variable {build : Build} {left right result : Nat}

abbrev Word := ZMod (2 ^ 64)

theorem cast_addU64 (added : build.addU64 left right = some result) : (result : Word) = left + right := by
  rw [Build.addU64] at added
  split_ifs at added
  · rw [← Option.some.inj added, Nat.cast_add]
  · rw [← Option.some.inj added, ZMod.natCast_mod, Nat.cast_add]

theorem cast_subU64 (small : right < 2 ^ 64) (subtracted : build.subU64 left right = some result) :
    (result : Word) = left - right := by
  rw [Build.subU64] at subtracted
  split_ifs at subtracted with below
  · rw [← Option.some.inj subtracted, Nat.cast_sub below]
  · have whole : right ≤ 2 ^ 64 + left := by omega
    rw [← Option.some.inj subtracted, ZMod.natCast_mod, Nat.cast_sub whole, Nat.cast_add, ZMod.natCast_self, zero_add]

theorem addU64_release (left right : Nat) : ∃ sum, Build.release.addU64 left right = some sum := by
  by_cases small : left + right < 2 ^ 64
  · exact ⟨_, if_pos small⟩
  · exact ⟨_, (if_neg small).trans (if_neg (by decide))⟩

theorem subU64_release (left right : Nat) : ∃ rest, Build.release.subU64 left right = some rest := by
  by_cases small : right ≤ left
  · exact ⟨_, if_pos small⟩
  · exact ⟨_, (if_neg small).trans (if_neg (by decide))⟩

theorem eq_of_word {left right : Nat} (first : left < 2 ^ 64) (second : right < 2 ^ 64) (same : (left : Word) = right) :
    left = right := by
  rw [ZMod.natCast_eq_natCast_iff, Nat.ModEq, Nat.mod_eq_of_lt first, Nat.mod_eq_of_lt second] at same
  exact same

end Sums

section Replays

variable [Codec]

def replayIn (build : Build) (block : Block) : List WalEntry → Option Block
  | [] => some block
  | .writeRecord record :: rest | .updateRecord record :: rest =>
    (block.insertOrUpdateIn build record).bind (replayIn build · rest)
  | .removeBlock :: _ => some block
  | .removeRecord timestamp :: rest => (block.removeRecordIn build timestamp).bind (replayIn build · rest)

section Figures

omit [Codec]

def Record.Words (record : Record) : Prop := record.beginPos < 2 ^ 64 ∧ record.endPos < 2 ^ 64

structure Block.Words (block : Block) : Prop where
  size : block.size < 2 ^ 64
  count : block.recordCount < 2 ^ 64
  records : ∀ time record, block.getRecord time = some record → record.Words

def WalEntry.Words : WalEntry → Prop
  | .writeRecord record | .updateRecord record => record.Words
  | _ => True

def Block.excess (block : Block) : Word × Word :=
  (block.size - (sumBy Record.endPos block.recordIndex - sumBy Record.beginPos block.recordIndex),
    block.recordCount - sumBy (fun _ => 1) block.recordIndex)

theorem subU64_lt {build : Build} {left right result : Nat} (small : left < 2 ^ 64)
    (subtracted : build.subU64 left right = some result) : result < 2 ^ 64 := by
  rw [Build.subU64] at subtracted
  split_ifs at subtracted
  · rw [← Option.some.inj subtracted]
    omega
  · rw [← Option.some.inj subtracted]
    exact Nat.mod_lt _ (by decide)

theorem cast_size {build : Build} {record : Record} {size result : Nat} (words : record.Words) :
    ((∃ length, build.subU64 record.endPos record.beginPos = some length ∧ build.subU64 size length = some result) →
      (result : Word) = size - (record.endPos - record.beginPos)) ∧
    ((∃ length, build.subU64 record.endPos record.beginPos = some length ∧ build.addU64 size length = some result) →
      (result : Word) = size + (record.endPos - record.beginPos)) := by
  constructor
  · intro ⟨length, own, done⟩
    rw [cast_subU64 (subU64_lt words.2 own) done, cast_subU64 words.1 own]
  · intro ⟨length, own, done⟩
    rw [cast_addU64 done, cast_subU64 words.1 own]

end Figures

section Steps

variable {build : Build} {block after : Block}

theorem insertOrUpdateIn_spec {record : Record} (words : block.Words) (own : record.Words)
    (inserted : block.insertOrUpdateIn build record = some after) :
    after.recordIndex = block.recordIndex.insert record.timestamp record ∧ after.excess = block.excess ∧ after.Words := by
  have index : (block.insertOrUpdateRecord record).recordIndex = block.recordIndex.insert record.timestamp record := by
    unfold Block.insertOrUpdateRecord
    split <;> rfl
  have typed (time : Nat) (other : Record) (found : (block.insertOrUpdateRecord record).getRecord time = some other) :
      other.Words := by
    rw [Block.getRecord_insertOrUpdate] at found
    split_ifs at found
    · exact Option.some.inj found ▸ own
    · exact words.records time other found
  have split (measure : Record → Nat) := sumBy_insert measure block.recordIndex record.timestamp record
  unfold Block.insertOrUpdateIn at inserted
  cases found : block.getRecord record.timestamp with
  | some existing =>
    simp only [found, Option.bind_eq_bind, Option.bind_eq_some_iff] at inserted
    obtain ⟨rest, freed, size, sized, metadataSize, _, done⟩ := inserted
    obtain rfl := Option.some.inj done
    have before (measure : Record → Nat) := sumBy_present measure block.recordIndex record.timestamp existing found
    refine ⟨index, ?_, ?_, words.count, typed⟩
    · simp only [Block.excess, index, split, before, Nat.cast_add, (cast_size own).2 sized,
        (cast_size (words.records _ _ found)).1 freed]
      exact Prod.ext (by ring) (by ring)
    · obtain ⟨_, _, added⟩ := sized
      exact Build.addU64_lt added
  | none =>
    simp only [found, Option.bind_eq_bind, Option.bind_eq_some_iff] at inserted
    obtain ⟨size, sized, recordCount, counted, metadataSize, _, done⟩ := inserted
    obtain rfl := Option.some.inj done
    have same := erase_absent block.recordIndex record.timestamp found
    refine ⟨index, ?_, ?_, Build.addU64_lt counted, typed⟩
    · simp only [Block.excess, index, split, same, Nat.cast_add, (cast_size own).2 sized, cast_addU64 counted]
      exact Prod.ext (by ring) (by ring)
    · obtain ⟨_, _, added⟩ := sized
      exact Build.addU64_lt added

theorem removeRecordIn_spec {time : Nat} (words : block.Words) (removed : block.removeRecordIn build time = some after) :
    after.recordIndex = block.recordIndex.erase time ∧ after.excess = block.excess ∧ after.Words := by
  unfold Block.removeRecordIn at removed
  cases found : block.getRecord time with
  | none =>
    rw [found] at removed
    obtain rfl := Option.some.inj removed
    exact ⟨(erase_absent block.recordIndex time found).symm, rfl, words⟩
  | some record =>
    simp only [found, Option.bind_eq_bind, Option.bind_eq_some_iff] at removed
    obtain ⟨size, sized, recordCount, counted, done⟩ := removed
    obtain rfl := Option.some.inj done
    have before (measure : Record → Nat) := sumBy_present measure block.recordIndex time record found
    have index : (block.removeRecord time).recordIndex = block.recordIndex.erase time := by
      simp [Block.removeRecord, found]
    have typed (other : Nat) (kept : Record) (present : (block.removeRecord time).getRecord other = some kept) :
        kept.Words := by
      rw [Block.getRecord_removeRecord] at present
      split_ifs at present
      exact words.records other kept present
    refine ⟨index, ?_, ?_, subU64_lt words.count counted, typed⟩
    · simp only [Block.excess, index, before, Nat.cast_add, (cast_size (words.records _ _ found)).1 sized,
        cast_subU64 (by decide) counted]
      exact Prod.ext (by ring) (by ring)
    · obtain ⟨_, _, subtracted⟩ := sized
      exact subU64_lt words.size subtracted

end Steps

section Runs

variable {build : Build} {block after : Block}

theorem replayIn_spec (entries : List WalEntry) (words : block.Words) (typed : ∀ entry ∈ entries, entry.Words)
    (replayed : replayIn build block entries = some after) (plain : Block)
    (same : ∀ time, plain.getRecord time = block.getRecord time) :
    (∀ time, after.getRecord time = (replay plain entries).1.getRecord time) ∧ after.excess = block.excess ∧ after.Words := by
  induction entries generalizing block plain with
  | nil =>
    obtain rfl := Option.some.inj replayed
    exact ⟨fun time => (same time).symm, rfl, words⟩
  | cons entry rest ih =>
    rw [List.forall_mem_cons] at typed
    have insert (record : Record) (own : record.Words)
        (replayed : (block.insertOrUpdateIn build record).bind (replayIn build · rest) = some after) :
        (∀ time, after.getRecord time = (replay (plain.insertOrUpdateRecord record) rest).1.getRecord time) ∧
          after.excess = block.excess ∧ after.Words := by
      obtain ⟨middle, inserted, later⟩ := Option.bind_eq_some_iff.mp replayed
      obtain ⟨index, kept, middle_words⟩ := insertOrUpdateIn_spec words own inserted
      rw [← kept]
      refine ih middle_words typed.2 later _ fun time => ?_
      rw [Block.getRecord_insertOrUpdate, same, Block.getRecord, Block.getRecord, index, get_insert]
    cases entry with
    | writeRecord record => exact insert record typed.1 replayed
    | updateRecord record => exact insert record typed.1 replayed
    | removeBlock =>
      obtain rfl := Option.some.inj replayed
      exact ⟨fun time => (same time).symm, rfl, words⟩
    | removeRecord removed =>
      obtain ⟨middle, erased, later⟩ := Option.bind_eq_some_iff.mp replayed
      obtain ⟨index, kept, middle_words⟩ := removeRecordIn_spec words erased
      rw [← kept]
      refine ih middle_words typed.2 later _ fun time => ?_
      rw [Block.getRecord_removeRecord, same, Block.getRecord, Block.getRecord, index, get_erase]

theorem replay_again (entries : List WalEntry) (kept : .removeBlock ∉ entries) (plain : Block) (time : Nat) :
    (replay (replay plain entries).1 entries).1.getRecord time = (replay plain entries).1.getRecord time := by
  cases told : mentions entries time with
  | true => exact replay_mentioned entries _ _ time told kept
  | false => exact replay_unmentioned entries _ time told

-- Without the checks for overflow no sum panics.
theorem insertOrUpdateIn_release (block : Block) (record : Record) :
    ∃ after, block.insertOrUpdateIn .release record = some after := by
  obtain ⟨length, own⟩ := subU64_release record.endPos record.beginPos
  unfold Block.insertOrUpdateIn
  cases block.getRecord record.timestamp with
  | some existing =>
    obtain ⟨old, freed⟩ := subU64_release existing.endPos existing.beginPos
    obtain ⟨rest, shrunk⟩ := subU64_release block.size old
    obtain ⟨size, sized⟩ := addU64_release rest length
    obtain ⟨metadata, encoded⟩ :=
      addU64_release (block.metadataSize - min block.metadataSize existing.encodedLen) record.encodedLen
    simp [freed, shrunk, own, sized, encoded]
  | none =>
    obtain ⟨size, sized⟩ := addU64_release block.size length
    obtain ⟨count, counted⟩ := addU64_release block.recordCount 1
    obtain ⟨metadata, encoded⟩ := addU64_release block.metadataSize record.encodedLen
    simp [own, sized, counted, encoded]

theorem removeRecordIn_release (block : Block) (time : Nat) : ∃ after, block.removeRecordIn .release time = some after := by
  unfold Block.removeRecordIn
  cases block.getRecord time with
  | some record =>
    obtain ⟨length, own⟩ := subU64_release record.endPos record.beginPos
    obtain ⟨size, sized⟩ := subU64_release block.size length
    obtain ⟨count, counted⟩ := subU64_release block.recordCount 1
    simp [own, sized, counted]
  | none => exact ⟨block, rfl⟩

theorem replayIn_release (entries : List WalEntry) (block : Block) : ∃ after, replayIn .release block entries = some after := by
  induction entries generalizing block with
  | nil => exact ⟨block, rfl⟩
  | cons entry rest ih =>
    cases entry with
    | writeRecord record | updateRecord record =>
      obtain ⟨middle, inserted⟩ := insertOrUpdateIn_release block record
      obtain ⟨after, later⟩ := ih middle
      exact ⟨after, Option.bind_eq_some_iff.mpr ⟨middle, inserted, later⟩⟩
    | removeBlock => exact ⟨block, rfl⟩
    | removeRecord time =>
      obtain ⟨middle, erased⟩ := removeRecordIn_release block time
      obtain ⟨after, later⟩ := ih middle
      exact ⟨after, Option.bind_eq_some_iff.mpr ⟨middle, erased, later⟩⟩

/-- A log without a removal of the block is replayed once more on what its first replay left, as after a crash between
    the save of the descriptor and the removal of the log, and changes nothing. -/
theorem replay_twice (build : Build) (block once : Block) (entries : List WalEntry) (kept : .removeBlock ∉ entries)
    (words : block.Words) (typed : ∀ entry ∈ entries, entry.Words) (first : replayIn build block entries = some once) :
    (∀ version corrupted, Block.ofProto { once.toProto with version, corrupted } = once) ∧
    (∀ twice, replayIn build once entries = some twice →
      twice.recordIndex = once.recordIndex ∧ twice.size = once.size ∧ twice.recordCount = once.recordCount) ∧
    (build = .release → ∃ twice, replayIn build once entries = some twice) := by
  obtain ⟨records, _, once_words⟩ := replayIn_spec entries words typed first block fun _ => rfl
  refine ⟨Block.ofProto_toProto once, fun twice second => ?_, ?_⟩
  · obtain ⟨again, same, twice_words⟩ := replayIn_spec entries once_words typed second _ fun time => (records time).symm
    have index : twice.recordIndex = once.recordIndex := by
      refine ext_get fun time => ?_
      change twice.getRecord time = once.getRecord time
      rw [again, replay_again entries kept, records]
    -- The figures are off by the same amount from the same sums.
    rw [Block.excess, Block.excess, index, Prod.mk.injEq, sub_left_inj, sub_left_inj] at same
    exact ⟨index, eq_of_word twice_words.size once_words.size same.1, eq_of_word twice_words.count once_words.count same.2⟩
  · rintro rfl
    exact replayIn_release entries once

end Runs

end Replays

section Sample

open Wire

def repeatedLog : List WalEntry := [.writeRecord sample, .updateRecord { sample with endPos := 9 }, .removeRecord 7]

theorem replay_twice_update :
    ∃ once twice, replayIn .debug (Block.new 1) repeatedLog = some once ∧ replayIn .debug once repeatedLog = some twice ∧
      once.size = 8 ∧ twice.size = once.size ∧ twice.recordCount = once.recordCount := by
  have words : (Block.new 1).Words := ⟨by decide, by decide, by simp⟩
  have typed : ∀ entry ∈ repeatedLog, entry.Words := by
    simp [repeatedLog, WalEntry.Words, Record.Words, sample]
  have both : ((replayIn .debug (Block.new 1) repeatedLog).bind (replayIn .debug · repeatedLog)).isSome := by decide +kernel
  obtain ⟨twice, replayed⟩ := Option.isSome_iff_exists.mp both
  obtain ⟨once, first, second⟩ := Option.bind_eq_some_iff.mp replayed
  have size : (replayIn .debug (Block.new 1) repeatedLog).map Block.size = some 8 := by decide +kernel
  rw [first] at size
  obtain ⟨_, same, _⟩ := replay_twice .debug _ once repeatedLog (by decide) words typed first
  exact ⟨once, twice, first, second, Option.some.inj size, (same twice second).2⟩

end Sample

end ReductStore
