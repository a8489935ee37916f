import ReductStore.Storage.Retention

set_option autoImplicit false

namespace ReductStore.BlockManager

open TreeMap

variable [Codec]

def removeRecordsInPart (reads : ReadLimits) (manager : BlockManager) (blockId : Nat) (times : List Nat) :
    Except ReductError Unit × BlockManager :=
  match manager.loadBlock blockId with
  | (.error failure, manager) => (.error failure, manager)
  | (.ok ref, manager) =>
    let block := retained (manager.heap ref) times
    if block.recordCount = 0 then
      (.ok (), (dropSteps times ++ removeBlockSteps).foldl (runRemoval ref blockId) manager)
    else
      let (buffers, result) :=
        copyRecordsInPart (manager.dataPath block.blockId) manager.disk.data[block.blockId]? reads block.records 0
      ((match result with
        | .ok _ => .ok ()
        | .error failure => .error failure.failure),
        (dropSteps times ++ (.openTemp :: writeTemps 0 buffers) ++ finalSteps result).foldl (runRemoval ref blockId) manager)

theorem removeRecords_full (manager : BlockManager) (blockId : Nat) (times : List Nat) :
    manager.removeRecordsInPart .full blockId times = manager.removeRecords blockId times := by
  rcases loaded : manager.loadBlock blockId with ⟨_ | ref, middle⟩
  · simp only [removeRecordsInPart, removeRecords, loaded]
  · simp only [removeRecordsInPart, removeRecords, loaded, copyRecords_full]
    by_cases empty : (retained (middle.heap ref) times).recordCount = 0
    · simp only [removalResult, removalSteps, if_pos empty]
    · simp only [removalResult, removalSteps, if_neg empty, compactSteps]
      rcases copyRecords (middle.dataPath (retained (middle.heap ref) times).blockId)
        middle.disk.data[(retained (middle.heap ref) times).blockId]? (retained (middle.heap ref) times).records 0
        with ⟨buffers, _ | positions⟩ <;> simp only [finalSteps, List.append_assoc]

section Removal

def withData (manager : BlockManager) (blockId : Nat) (file : File) : BlockManager :=
  { manager with disk := { manager.disk with data := manager.disk.data.insert blockId file } }

def Intact (after : BlockManager) (blockId : Nat) (block : Block) (file : File) : Prop :=
  ∀ time record, block.getRecord time = some record → ∃ moved stored, after.view blockId = some moved ∧
    moved.getRecord time = some stored ∧
    File.range (after.dataOf blockId) stored.beginPos stored.endPos = File.range file record.beginPos record.endPos

variable {manager : BlockManager}

theorem Steady.withData (steady : manager.Steady) (blockId : Nat) (file : File) :
    (manager.withData blockId file).Steady where
  fresh := steady.fresh
  agree := steady.agree
  named := steady.named
  titled := steady.titled
  served := steady.served
  checked := steady.checked
  backed := steady.backed
  settled := steady.settled

theorem Steady.removeRecordsInPart_kept (steady : manager.Steady) {blockId : Nat} {block : Block}
    (seen : manager.view blockId = some block) (times : List Nat) (kept : (retained block times).recordCount ≠ 0)
    (file : File) (data : manager.disk.data[blockId]? = some file) (reads : ReadLimits) :
    ∃ path, ∀ buffers result, copyRecordsInPart path (some file) reads (retained block times).records 0 = (buffers, result) →
      (manager.removeRecordsInPart reads blockId times).1 =
          (match result with | .ok _ => .ok () | .error failure => .error failure.failure) ∧
        (result = .ok (retained block times).newPositions → ∃ tail,
          (manager.removeRecordsInPart reads blockId times).2.view blockId = some (retained block times).compact ∧
          (manager.removeRecordsInPart reads blockId times).2.dataOf blockId = buffers.flatten ++ tail) := by
  obtain ⟨ref, middle, result, loaded⟩ := steady.load blockId ((steady.view_iff blockId block).mp seen).1
  have middleSteady := loaded.steady steady
  have content : middle.heap ref = block := by
    have again := middleSteady.cached_view loaded.cached
    rw [loaded.view steady, seen, Option.some.injEq] at again
    exact again.symm
  have name : (retained block times).blockId = blockId := by
    rw [blockId_retained, ← content, loaded.name]
  have stored : middle.disk.data[blockId]? = some file := by rw [loaded.disk, data]
  refine ⟨middle.dataPath blockId, fun buffers outcome copied => ?_⟩
  simp only [removeRecordsInPart, result, content, if_neg kept, name, stored, copied]
  refine ⟨by cases outcome <;> trivial, ?_⟩
  rintro rfl
  have final := middleSteady.run_compacted loaded.cached times
    (buffers.flatten ++ (middle.disk.temp[blockId]?.getD []).drop buffers.flatten.length)
  rw [content] at final
  rw [List.foldl_append, run_copied]
  obtain ⟨_, view, written⟩ := final
  refine ⟨(middle.disk.temp[blockId]?.getD []).drop buffers.flatten.length, ?_, ?_⟩
  · rw [view, Function.update_self]
  · rw [dataOf, written blockId, if_pos rfl, Option.getD_some]

theorem Steady.intact_of_fills (steady : manager.Steady) {blockId : Nat} {block : Block}
    (seen : manager.view blockId = some block) (times : List Nat) (kept : (retained block times).recordCount ≠ 0)
    (file : File) (data : manager.disk.data[blockId]? = some file) (reads : ReadLimits)
    (fills : ∀ record ∈ (retained block times).records, reads.Fills record)
    (success : (manager.removeRecordsInPart reads blockId times).1 = .ok ()) :
    Intact (manager.removeRecordsInPart reads blockId times).2 blockId (retained block times) file := by
  obtain ⟨path, removal⟩ := steady.removeRecordsInPart_kept seen times kept file data reads
  rcases copied : copyRecordsInPart path (some file) reads (retained block times).records 0 with ⟨buffers, _ | positions⟩
  · simp [(removal _ _ copied).1] at success
  have readable := (copyRecordsInPart_ok path reads _ 0 (some file) buffers positions copied).2 file rfl
  obtain ⟨_, again, whole, _⟩ := copyRecordsInPart_readable path file reads _ 0 readable
  obtain ⟨rfl, rfl⟩ : _ = buffers ∧ _ = positions := by simpa [again] using copied
  obtain ⟨tail, view, written⟩ := (removal _ _ again).2 rfl
  intro time record found
  obtain ⟨first, last, placed⟩ := (retained block times).newPositions_present time record found
  refine ⟨_, _, view, (Block.getRecord_compact _ time _).mpr ⟨record, first, last, found, placed, rfl⟩, ?_⟩
  rw [written, whole fills]
  exact range_compacted _ file tail readable (time, first, last) placed record found

def onesFile (block : Block) : File := List.replicate (block.records.map Record.endPos).sum 1

omit [Codec] in
theorem readable_ones (block : Block) : ∀ record ∈ block.records, Readable (onesFile block) record := by
  intro record member _
  rw [onesFile, List.length_replicate]
  exact List.single_le_sum (by simp) _ (List.mem_map_of_mem member)

theorem Steady.broken_of_short (steady : manager.Steady) {blockId : Nat} {block : Block}
    (seen : manager.view blockId = some block) (times : List Nat) (kept : (retained block times).recordCount ≠ 0)
    (data : manager.disk.data[blockId]? = some (onesFile (retained block times))) (reads : ReadLimits)
    (short : ¬ ∀ record ∈ (retained block times).records, reads.Fills record) :
    (manager.removeRecordsInPart reads blockId times).1 = .ok () ∧
      ¬ Intact (manager.removeRecordsInPart reads blockId times).2 blockId (retained block times)
        (onesFile (retained block times)) := by
  obtain ⟨path, removal⟩ := steady.removeRecordsInPart_kept seen times kept _ data reads
  obtain ⟨buffers, copied, _, broken⟩ := copyRecordsInPart_readable path _ reads _ 0 (readable_ones (retained block times))
  obtain ⟨⟨time, first, last⟩, placed, index, after, before, zero⟩ := broken short
  obtain ⟨tail, view, written⟩ := (removal _ _ copied).2 rfl
  refine ⟨(removal _ _ copied).1, fun intact => ?_⟩
  have key := Placement.place_length _ 0 _ placed
  obtain ⟨record, found, _⟩ := (Block.mem_recordLengths _ time _).mp key
  have moved := (Block.getRecord_compact _ time _).mpr ⟨record, first, last, found, placed, rfl⟩
  obtain ⟨compacted, stored, sees, present, same⟩ := intact time record found
  obtain rfl : _ = compacted := Option.some.inj (view.symm.trans sees)
  obtain rfl : _ = stored := Option.some.inj (moved.symm.trans present)
  -- the byte in question is the padding of the buffer on one side, a byte of the record on the other
  have here := congrArg (·[index - first]?) same
  simp only [written, Record.moved, File.get_range] at here
  simp only [Nat.zero_add] at after before
  rw [if_pos (by omega), Nat.add_sub_cancel' after, List.getElem?_append_left (List.getElem?_eq_some_iff.mp zero).1,
    zero] at here
  split_ifs at here
  simp only [onesFile, List.getElem?_replicate] at here
  split_ifs at here
  simp at here

/-- A removal keeps the bytes of the retained records, whatever they are, exactly when no read is short. -/
theorem retained_bytes_iff (sound : manager.Sound) (blockId : Nat) (block : Block)
    (seen : manager.view blockId = some block) (times : List Nat)
    (kept : ∃ time, time ∉ times ∧ (block.getRecord time).isSome) (reads : ReadLimits) :
    (∀ file, ((manager.withData blockId file).removeRecordsInPart reads blockId times).1 = .ok () →
      Intact ((manager.withData blockId file).removeRecordsInPart reads blockId times).2 blockId (retained block times)
        file) ↔
      ∀ time record, time ∉ times → block.getRecord time = some record → reads.Fills record := by
  have counted : (retained block times).recordCount ≠ 0 := by
    refine (accounted_retained times (sound.accounted blockId block seen)).occupied.mp ?_
    obtain ⟨time, outside, present⟩ := kept
    obtain ⟨record, found⟩ := Option.isSome_iff_exists.mp present
    exact ⟨time, record, by rw [getRecord_retained, if_neg outside, found]⟩
  have records : (∀ time record, time ∉ times → block.getRecord time = some record → reads.Fills record) ↔
      ∀ record ∈ (retained block times).records, reads.Fills record := by
    simp only [Block.mem_records, getRecord_retained]
    constructor
    · intro fills record found
      split_ifs at found with removed
      exact fills _ record removed found
    · intro fills time record outside found
      obtain rfl := Block.getRecord_timestamp found
      exact fills record (by rw [if_neg outside, found])
  have data (file : File) : (manager.withData blockId file).disk.data[blockId]? = some file := by simp [BlockManager.withData]
  rw [records]
  constructor
  · intro intact
    by_contra short
    obtain ⟨success, broken⟩ := (sound.toSteady.withData blockId (onesFile (retained block times))).broken_of_short seen
      times counted (data _) reads short
    exact broken (intact _ success)
  · intro fills file success
    exact (sound.toSteady.withData blockId file).intact_of_fills seen times counted file (data file) reads fills success

end Removal

end ReductStore.BlockManager

namespace ReductStore.BlockManager

def threeBytes : BlockManager :=
  ((smallEntry.perform (.beginWrite (smallWrite 1 1))).perform (.beginWrite (smallWrite 3 3))).perform
    (.runWriter { blockId := 1, recordTimestamp := 3, offset := 1, contentSize := 3 } (contentOf [[7, 8, 9]]))

theorem threeBytes_history :
    Runs perform (fun current operation => current.Sequential operation ∧ current.Harmless operation) smallEntry
      threeBytes := by
  have first : smallEntry.displaces (smallWrite 1 1) = false := by decide +kernel
  have second : (smallEntry.perform (.beginWrite (smallWrite 1 1))).displaces (smallWrite 3 3) = false := by decide +kernel
  have opened : ((smallEntry.perform (.beginWrite (smallWrite 1 1))).perform (.beginWrite (smallWrite 3 3))).InService 1 := by
    unfold InService
    decide +kernel
  exact .step (.step (.step .start _ ⟨trivial, first⟩) _ ⟨trivial, second⟩) _ ⟨opened, trivial⟩

theorem retained_bytes_full_reads :
    ∃ block, threeBytes.view 1 = some block ∧
      Intact ((threeBytes.withData 1 [5, 7, 8, 9]).removeRecords 1 [1]).2 1 (retained block [1]) [5, 7, 8, 9] := by
  have sound := (stocked_of_history "entry" "bucket" "entry" .filesystem [] threeBytes_history).toSound
  have seen : (threeBytes.view 1).isSome := by decide +kernel
  obtain ⟨block, seen⟩ := Option.isSome_iff_exists.mp seen
  have third : ((threeBytes.view 1).bind (·.getRecord 3)).isSome := by decide +kernel
  rw [seen] at third
  rw [← removeRecords_full]
  refine ⟨block, seen, (retained_bytes_iff sound 1 block seen [1] ⟨3, by decide, third⟩ .full).mpr ?_ _ (by decide +kernel)⟩
  intro time record _ _ chunk _
  exact Nat.min_le_right _ _

def twoAtATime : ReadLimits := { limit := fun _ _ => 2, positive := fun _ _ => by decide }

theorem short_read_breaks_record :
    Runs perform (fun current operation => current.Sequential operation ∧ current.Harmless operation) smallEntry
        threeBytes ∧
      (threeBytes.removeRecordsInPart twoAtATime 1 [1]).1 = .ok () ∧
      ((threeBytes.view 1).bind fun block => (block.getRecord 3).map fun record =>
        File.range (threeBytes.dataOf 1) record.beginPos record.endPos) = some [7, 8, 9] ∧
      (((threeBytes.removeRecordsInPart twoAtATime 1 [1]).2.view 1).bind fun block => (block.getRecord 3).map fun record =>
        File.range ((threeBytes.removeRecordsInPart twoAtATime 1 [1]).2.dataOf 1) record.beginPos record.endPos) =
          some [7, 8, 0] :=
  ⟨threeBytes_history, by decide +kernel, by decide +kernel, by decide +kernel⟩

end ReductStore.BlockManager
