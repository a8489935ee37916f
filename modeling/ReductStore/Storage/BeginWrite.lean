import ReductStore.Storage.WriteRecord
import ReductStore.Storage.WriterSteps

set_option autoImplicit false

namespace ReductStore.BlockManager

open TreeMap

def Latest (manager : BlockManager) (blockId : Nat) : Prop :=
  manager.InService blockId ∧ ∀ other, manager.InService other → other ≤ blockId

def Covers (manager : BlockManager) (blockId time : Nat) : Prop :=
  manager.InService blockId ∧ blockId ≤ time ∧ ∀ other, manager.InService other → other ≤ time → other ≤ blockId

theorem latest_iff (manager : BlockManager) (blockId : Nat) :
    manager.blockIndex.activeTree.getLast? = some blockId ↔ manager.Latest blockId :=
  getLast_sorted (BlockIndex.activeTree_sorted manager.blockIndex) blockId

section Search

variable (manager : BlockManager) (time blockId : Nat)

theorem below_iff (missing : ¬ manager.InService time) :
    (manager.blockIndex.activeTree.filter (· < time)).getLast? = some blockId ↔ manager.Covers blockId time := by
  have apart (other : Nat) (served : manager.InService other) : other ≤ time ↔ other < time := by
    have different : other ≠ time := fun same => missing (same ▸ served)
    omega
  rw [getLast_sorted ((BlockIndex.activeTree_sorted manager.blockIndex).filter _)]
  simp only [List.mem_filter, decide_eq_true_eq, and_imp]
  constructor
  · rintro ⟨⟨served, before⟩, greatest⟩
    exact ⟨served, before.le, fun other found less => greatest other found ((apart other found).mp less)⟩
  · rintro ⟨served, before, greatest⟩
    exact ⟨⟨served, (apart blockId served).mp before⟩, fun other found less => greatest other found less.le⟩

theorem findBlockId_iff : manager.findBlockId time = .ok blockId ↔ manager.Covers blockId time := by
  have unnamed (missing : ¬ manager.InService time) (failure : ReductError) :
      (manager.blockIndex.activeTree.filter (· < time)).getLast?.elim (Except.error failure) Except.ok = .ok blockId ↔
        manager.Covers blockId time := by
    rw [← below_iff manager time blockId missing]
    cases (manager.blockIndex.activeTree.filter (· < time)).getLast? <;> simp
  cases search : manager.blockIndex.activeTree.find? (time ≤ ·) with
  | none =>
    simp only [findBlockId, search]
    refine unnamed (fun served => ?_) _
    simpa using List.find?_eq_none.mp search time served
  | some found =>
    obtain ⟨reached, front, back, split, earlier⟩ := List.find?_eq_some_iff_append.mp search
    have served : manager.InService found := by simp [InService, split]
    simp only [decide_eq_true_eq] at reached
    by_cases equal : time = found
    · subst equal
      simp only [findBlockId, search, ge_iff_le, le_refl, if_true, Except.ok.injEq]
      constructor
      · rintro rfl
        exact ⟨served, le_rfl, fun _ _ less => less⟩
      · rintro ⟨_, before, greatest⟩
        exact le_antisymm (greatest _ served le_rfl) before
    · have later : ¬ time ≥ found := by omega
      simp only [findBlockId, search, if_neg later]
      refine unnamed ?_ _
      intro present
      -- the search stops at the first id that is not before the time
      have sorted := BlockIndex.activeTree_sorted manager.blockIndex
      rw [split] at sorted
      rw [InService, split, List.mem_append, List.mem_cons] at present
      rcases present with early | same | late
      · simpa using earlier time early
      · exact equal same
      · have := (List.pairwise_cons.mp (List.pairwise_append.mp sorted).2.1).1 time late
        omega

end Search

theorem exists_covers (manager : BlockManager) {time : Nat} (early : ∃ blockId, manager.InService blockId ∧ blockId ≤ time) :
    ∃ blockId, manager.Covers blockId time := by
  obtain ⟨first, served, before⟩ := early
  have member : first ∈ manager.blockIndex.activeTree.filter (· ≤ time) := by
    simpa [InService, before] using served
  cases last : (manager.blockIndex.activeTree.filter (· ≤ time)).getLast? with
  | none =>
    rw [List.getLast?_eq_none_iff.mp last] at member
    cases member
  | some blockId =>
    obtain ⟨found, greatest⟩ :=
      (getLast_sorted ((BlockIndex.activeTree_sorted manager.blockIndex).filter _) blockId).mp last
    simp only [List.mem_filter, decide_eq_true_eq, and_imp] at found greatest
    exact ⟨blockId, found.1, found.2, greatest⟩

variable [Codec]

abbrev prepared (block : Block) (call : WriteCall) : Block :=
  block.prepareForWriting call.time call.contentSize call.contentType call.labels

section Placing

theorem openWriter_commit (manager : BlockManager) (ref : BlockRef) (block : Block) (time : Nat) (record : Record)
    (found : block.getRecord time = some record) :
    (manager.setBlock ref block).openWriter ref time =
      (.ok { blockId := block.blockId, recordTimestamp := time, offset := record.beginPos, contentSize := record.length },
        manager.commit ref block [] true) := by
  have content : (manager.setBlock ref block).heap ref = block := by simp [setBlock]
  have registered : (manager.setBlock ref block).registerBlock ref time =
      (.ok record.beginPos, manager.commit ref block [] true) := by
    simp only [registerBlock, content, found]
    rfl
  have kept : (manager.commit ref block [] true).heap ref = block :=
    (congrFun (saveMetas_memory _ _).heap ref).trans content
  simp only [openWriter, registered, writeContext, kept, found]

structure Placed (before after : BlockManager) (blockId : Nat) (block : Block) : Prop where
  steps : WriterRun before after
  view : after.view = Function.update before.view blockId (some block)

theorem Sound.write {manager : BlockManager} (sound : manager.Sound) {blockId : Nat} {ref : BlockRef}
    (cached : manager.Cached blockId ref) (record : Record) (started : record.state = .started)
    (replaced : ∀ old, (manager.heap ref).getRecord record.timestamp = some old →
      old.state ≠ .finished ∧ old.SamePlace record) :
    ∃ after, (manager.setBlock ref ((manager.heap ref).insertOrUpdateRecord record)).openWriter ref record.timestamp =
        (.ok { blockId, recordTimestamp := record.timestamp, offset := record.beginPos, contentSize := record.length },
          after) ∧
      Placed manager after blockId ((manager.heap ref).insertOrUpdateRecord record) ∧
      after.disk.data = manager.disk.data := by
  have title := sound.named blockId ref cached
  set block := (manager.heap ref).insertOrUpdateRecord record with blockEq
  have name : block.blockId = blockId := by rw [blockEq, Block.blockId_insertOrUpdate, title]
  have found : block.getRecord record.timestamp = some record := by simp [blockEq]
  have step := WriterStep.begin cached title record started replaced
  refine ⟨_, ?_, ⟨Relation.ReflTransGen.single step, ?_⟩, ?_⟩
  · rw [openWriter_commit manager ref block _ record found, name]
  · exact (sound.toSteady.commit cached name (committing_edited manager ref block [] true)).2.2
  · exact (saveMetas_memory _ _).data

theorem Sound.place {manager : BlockManager} (sound : manager.Sound) {blockId : Nat} {ref : BlockRef}
    (cached : manager.Cached blockId ref) (call : WriteCall) (vacant : (manager.heap ref).getRecord call.time = none) :
    ∃ after, (manager.prepareBlockForWriting call ref).openWriter ref call.time =
        (.ok { blockId, recordTimestamp := call.time, offset := (manager.heap ref).size
               contentSize := call.contentSize }, after) ∧
      Placed manager after blockId (prepared (manager.heap ref) call) ∧ after.disk.data = manager.disk.data := by
  set record := (manager.heap ref).startedRecord call.time call.contentSize call.contentType call.labels
  have length : record.length = call.contentSize := Nat.add_sub_cancel_left _ _
  have none (old : Record) (found : (manager.heap ref).getRecord record.timestamp = some old) :
      old.state ≠ .finished ∧ old.SamePlace record := by
    rw [show (manager.heap ref).getRecord record.timestamp = none from vacant] at found
    cases found
  have written := sound.write cached record rfl none
  rw [length] at written
  exact written

theorem data_startNewBlock {manager : BlockManager} (wired : manager.Wired) (blockId maxBlockSize other : Nat)
    (different : other ≠ blockId) :
    (manager.startNewBlock blockId maxBlockSize).2.disk.data[other]? = manager.disk.data[other]? := by
  have openedWired := wired.opened blockId maxBlockSize
  have effect := saveBlock_effect manager.next (fun id found write => openedWired.named id found (Or.inl write))
  rw [startNewBlock_eq, effect.data]
  simp [opened, allocate, setBlock, indexBlock, modifyData, different]

theorem Sound.start_place {manager : BlockManager} (sound : manager.Sound) (call : WriteCall)
    (uncached : manager.readCache[call.time]? = none)
    (empty : ∀ block, manager.view call.time = some block → ¬ block.Occupied) :
    let started := manager.startNewBlock call.time call.settings.maxBlockSize
    ∃ after, (started.2.prepareBlockForWriting call started.1).openWriter started.1 call.time =
        (.ok { blockId := call.time, recordTimestamp := call.time, offset := 0, contentSize := call.contentSize },
          after) ∧
      Placed manager after call.time (prepared (Block.new call.time) call) ∧
      ∀ other : Nat, other ≠ call.time → after.disk.data[other]? = manager.disk.data[other]? := by
  intro started
  have step := WriterStep.start call.time call.settings.maxBlockSize uncached empty
  have startedSound := step.primitive.sound sound
  obtain ⟨_, cached, view⟩ := sound.toSteady.start call.time call.settings.maxBlockSize uncached
  have content := (startNewBlock_effect sound.toWired call.time call.settings.maxBlockSize uncached).content
  have vacant : (started.2.heap manager.next).getRecord call.time = none := by
    rw [content]
    exact Block.getRecord_new call.time call.time
  obtain ⟨after, result, placed, data⟩ := startedSound.place cached call vacant
  rw [content] at result placed
  refine ⟨after, result, ⟨Relation.ReflTransGen.head step placed.steps, ?_⟩, ?_⟩
  · rw [placed.view, view, Function.update_idem]
  · intro other different
    rw [data]
    exact data_startNewBlock sound.toWired call.time call.settings.maxBlockSize other different

theorem data_finishBlock (manager : BlockManager) (ref : BlockRef) (other : Nat) :
    (manager.finishBlock ref).disk.data[other]? =
      if other = (manager.heap ref).blockId then
        some (File.setLen (manager.disk.data[other]?.getD []) (manager.heap ref).size)
      else manager.disk.data[other]? := by
  change (manager.disk.data.insert _ _)[other]? = _
  rw [get_insert]
  by_cases same : other = (manager.heap ref).blockId
  · simp [same]
  · simp [same]

theorem Sound.rotate_place {manager : BlockManager} (sound : manager.Sound) {blockId : Nat} {ref : BlockRef}
    (cached : manager.Cached blockId ref) (call : WriteCall) (uncached : manager.readCache[call.time]? = none)
    (empty : ∀ block, manager.view call.time = some block → ¬ block.Occupied) :
    let rotated := manager.rotateBlock call ref
    ∃ after, (rotated.2.prepareBlockForWriting call rotated.1).openWriter rotated.1 call.time =
        (.ok { blockId := call.time, recordTimestamp := call.time, offset := 0, contentSize := call.contentSize },
          after) ∧
      Placed manager after call.time (prepared (Block.new call.time) call) ∧
      ∀ other : Nat, other ≠ call.time → after.disk.data[other]? = (manager.finishBlock ref).disk.data[other]? := by
  have step := WriterStep.finish cached
  have view := (sound.toSteady.finish cached).2
  obtain ⟨after, result, placed, data⟩ := (step.primitive.sound sound).start_place call uncached (by rwa [view])
  refine ⟨after, result, ⟨Relation.ReflTransGen.head step placed.steps, ?_⟩, data⟩
  rw [placed.view, view]

theorem Sound.start_append {manager : BlockManager} (sound : manager.Sound) (call : WriteCall)
    (absent : ¬ manager.InService call.time) :
    let started := manager.startNewBlock call.time call.settings.maxBlockSize
    ∃ after, started.2.appendRecord call started.1 =
        (.ok { blockId := call.time, recordTimestamp := call.time, offset := 0, contentSize := call.contentSize },
          after) ∧
      Placed manager after call.time (prepared (Block.new call.time) call) ∧
      ∀ other : Nat, other ≠ call.time → after.disk.data[other]? = manager.disk.data[other]? := by
  intro started
  have uncached : manager.readCache[call.time]? = none := by
    cases read : manager.readCache[call.time]? with
    | none => rfl
    | some ref => exact absurd (sound.served call.time ref (Or.inr read)) absent
  have empty (block : Block) (seen : manager.view call.time = some block) : ¬ block.Occupied := by
    simp [(sound.toSteady.view_none call.time).mpr absent] at seen
  have step := WriterStep.start call.time call.settings.maxBlockSize uncached empty
  obtain ⟨_, cached, view⟩ := sound.toSteady.start call.time call.settings.maxBlockSize uncached
  have effect := startNewBlock_effect sound.toWired call.time call.settings.maxBlockSize uncached
  have content : started.2.heap started.1 = Block.new call.time := effect.content
  unfold appendRecord
  by_cases full : (started.2.heap started.1).isFull call
  · have stillUncached : started.2.readCache[call.time]? = none := by
      change (manager.startNewBlock _ _).2.readCache[call.time]? = none
      rw [effect.save.read]
      exact uncached
    have stillEmpty (block : Block) (seen : started.2.view call.time = some block) : ¬ block.Occupied := by
      rw [show started.2.view = _ from view, Function.update_self, Option.some.injEq] at seen
      rintro ⟨time, record, found⟩
      rw [← seen, Block.getRecord_new] at found
      cases found
    obtain ⟨after, result, placed, data⟩ := (step.primitive.sound sound).rotate_place cached call stillUncached stillEmpty
    simp only [full, if_true]
    refine ⟨after, result, ⟨Relation.ReflTransGen.head step placed.steps, ?_⟩, ?_⟩
    · rw [placed.view, view, Function.update_idem]
    · intro other different
      rw [data other different, data_finishBlock, if_neg]
      · exact data_startNewBlock sound.toWired call.time call.settings.maxBlockSize other different
      · rw [show (manager.startNewBlock _ _).2.heap manager.next = _ from content]
        exact different
  · simp only [full, Bool.false_eq_true, if_false]
    exact sound.start_place call uncached empty

end Placing

section Outcome

def selected (manager : BlockManager) (call : WriteCall) : Option Block :=
  match manager.blockIndex.activeTree.getLast?.bind manager.view with
  | none => none
  | some last =>
    if last.isBelated call.time then
      match manager.findBlockId call.time with
      | .ok blockId => (manager.view blockId).filter (fun block => (block.getRecord call.time).isNone)
      | .error _ => none
    else some last

def displaces (manager : BlockManager) (call : WriteCall) : Bool :=
  decide (call.time ∈ manager.blockIndex.activeTree) && (manager.selected call).any (·.isFull call)

structure Selects (manager : BlockManager) (call : WriteCall) (blockId : Nat) (block : Block) : Prop where
  selected : manager.selected call = some block
  seen : manager.view blockId = some block
  vacant : block.getRecord call.time = none
  place : (manager.Latest blockId ∧ block.isBelated call.time = false) ∨ manager.Covers blockId call.time

inductive Outcome (before : BlockManager) (call : WriteCall) : Except ReductError WriteContext → BlockManager → Prop where
  | fresh {after : BlockManager} (absent : ¬ before.InService call.time)
      (cause : (∀ blockId, before.InService blockId → call.time < blockId) ∨
        ∃ blockId block, before.Selects call blockId block ∧ block.isFull call = true)
      (view : after.view = Function.update before.view call.time (some (prepared (Block.new call.time) call))) :
      Outcome before call
        (.ok { blockId := call.time, recordTimestamp := call.time, offset := 0, contentSize := call.contentSize }) after
  | within {after : BlockManager} {blockId : Nat} {block : Block} (selects : before.Selects call blockId block)
      (room : block.isFull call = false)
      (view : after.view = Function.update before.view blockId (some (prepared block call))) :
      Outcome before call
        (.ok { blockId, recordTimestamp := call.time, offset := block.size, contentSize := call.contentSize }) after
  | overwrite {after : BlockManager} {blockId : Nat} {block : Block} {record : Record}
      (covers : before.Covers blockId call.time) (seen : before.view blockId = some block)
      (found : block.getRecord call.time = some record) (replaceable : record.isReplaceable call.contentSize = true)
      (view : after.view =
        Function.update before.view blockId (some (block.insertOrUpdateRecord (record.overwritten call)))) :
      Outcome before call
        (.ok { blockId, recordTimestamp := call.time, offset := record.beginPos, contentSize := record.length }) after
  | refused {after : BlockManager} {blockId : Nat} {block : Block} {record : Record}
      (covers : before.Covers blockId call.time) (seen : before.view blockId = some block)
      (found : block.getRecord call.time = some record) (taken : record.isReplaceable call.contentSize = false)
      (view : after.view = before.view) : Outcome before call (.error (alreadyExists call.time)) after

def DataKept (before after : BlockManager) : Prop :=
  ∀ (blockId : Nat) (block : Block), before.view blockId = some block →
    after.disk.data[blockId]? = before.disk.data[blockId]? ∨
      after.disk.data[blockId]? = some (File.setLen (before.disk.data[blockId]?.getD []) block.size)

structure Written (before : BlockManager) (call : WriteCall)
    (reply : Except ReductError WriteContext × BlockManager) : Prop where
  steps : WriterRun before reply.2
  outcome : Outcome before call reply.1 reply.2
  data : DataKept before reply.2

theorem Written.run {before : BlockManager} {call : WriteCall} {reply : Except ReductError WriteContext × BlockManager}
    (written : Written before call reply) : Reaches before reply.2 := written.steps.reaches

structure Quiet (before after : BlockManager) : Prop where
  steps : WriterRun before after
  view : after.view = before.view
  index : after.blockIndex = before.blockIndex
  disk : after.disk = before.disk

theorem Loaded.quiet {before after : BlockManager} {blockId : Nat} {ref : BlockRef}
    (loaded : Loaded before after blockId ref) (steady : before.Steady) : Quiet before after :=
  { steps := Relation.ReflTransGen.single (WriterStep.load loaded)
    view := loaded.view steady
    index := loaded.index
    disk := loaded.disk }

theorem Quiet.run {before after : BlockManager} (quiet : Quiet before after) : Reaches before after := quiet.steps.reaches

theorem Quiet.trans {before middle after : BlockManager} (first : Quiet before middle) (second : Quiet middle after) :
    Quiet before after :=
  { steps := first.steps.trans second.steps
    view := second.view.trans first.view
    index := second.index.trans first.index
    disk := second.disk.trans first.disk }

theorem Quiet.selected {before middle : BlockManager} (quiet : Quiet before middle) (call : WriteCall) :
    middle.selected call = before.selected call := by
  have found (blockId : Nat) :
      middle.findBlockId call.time = .ok blockId ↔ before.findBlockId call.time = .ok blockId := by
    simp only [findBlockId_iff, Covers, InService, quiet.index]
  simp only [BlockManager.selected, quiet.view, quiet.index]
  cases left : middle.findBlockId call.time with
  | ok blockId => simp [(found blockId).mp left]
  | error failure =>
    cases right : before.findBlockId call.time with
    | error other => rfl
    | ok blockId => simp [(found blockId).mpr right] at left

theorem Quiet.selects {before middle : BlockManager} {call : WriteCall} {blockId : Nat} {block : Block}
    (quiet : Quiet before middle) (selects : middle.Selects call blockId block) :
    before.Selects call blockId block := by
  have place := selects.place
  simp only [Latest, Covers, InService, quiet.index] at place
  exact ⟨(quiet.selected call).symm.trans selects.selected, quiet.view ▸ selects.seen, selects.vacant, place⟩

theorem Quiet.written {before middle : BlockManager} {call : WriteCall}
    {reply : Except ReductError WriteContext × BlockManager} (quiet : Quiet before middle)
    (written : Written middle call reply) : Written before call reply := by
  obtain ⟨result, after⟩ := reply
  obtain ⟨steps, outcome, data⟩ := written
  refine ⟨quiet.steps.trans steps, ?_, ?_⟩
  · change Outcome middle call result after at outcome
    cases outcome with
    | fresh absent cause view =>
      simp only [InService, quiet.index, quiet.view] at absent cause view
      refine .fresh absent (cause.imp_right ?_) view
      rintro ⟨blockId, block, selects, full⟩
      exact ⟨blockId, block, quiet.selects selects, full⟩
    | within selects room view =>
      rw [quiet.view] at view
      exact .within (quiet.selects selects) room view
    | overwrite covers seen found replaceable view =>
      simp only [InService, Covers, quiet.index, quiet.view] at covers seen view
      exact .overwrite covers seen found replaceable view
    | refused covers seen found taken view =>
      simp only [InService, Covers, quiet.index, quiet.view] at covers seen view
      exact .refused covers seen found taken view
  · simpa only [DataKept, quiet.view, quiet.disk] using data

theorem Sound.append_selected {manager : BlockManager} (sound : manager.Sound) {blockId : Nat} {ref : BlockRef}
    (cached : manager.Cached blockId ref) (call : WriteCall)
    (selects : manager.Selects call blockId (manager.heap ref))
    (free : (manager.heap ref).isFull call = true → ¬ manager.InService call.time) :
    Written manager call (manager.appendRecord call ref) := by
  unfold appendRecord
  cases full : (manager.heap ref).isFull call with
  | false =>
    obtain ⟨after, result, placed, data⟩ := sound.place cached call selects.vacant
    simp only [Bool.false_eq_true, if_false, result]
    exact ⟨placed.steps, .within selects full placed.view, fun other block seen => Or.inl (by rw [data])⟩
  | true =>
    have absent := free full
    have uncached : manager.readCache[call.time]? = none := by
      cases read : manager.readCache[call.time]? with
      | none => rfl
      | some other => exact absurd (sound.served call.time other (Or.inr read)) absent
    have unseen := (sound.toSteady.view_none call.time).mpr absent
    obtain ⟨after, result, placed, data⟩ := sound.rotate_place cached call uncached (by simp [unseen])
    simp only [if_true, result]
    refine ⟨placed.steps, .fresh absent (Or.inr ⟨blockId, _, selects, full⟩) placed.view, ?_⟩
    intro other block seen
    have different : other ≠ call.time := by
      rintro rfl
      simp [unseen] at seen
    rw [data other different, data_finishBlock]
    by_cases same : other = (manager.heap ref).blockId
    · have title := sound.named blockId ref cached
      rw [same, title, sound.toSteady.cached_view cached, Option.some.injEq] at seen
      simp [same, seen]
    · simp [same]

omit [Codec] in
theorem before_of_not_belated {block : Block} (accounted : block.Accounted) {time : Nat}
    (belated : block.isBelated time = false) (other : Nat) (record : Record)
    (found : block.getRecord other = some record) : other < time := by
  have some_ := accounted.occupied.mp ⟨other, record, found⟩
  have upper := Block.le_latestRecordTime found
  simp only [Block.isBelated, gt_iff_lt, ge_iff_le, Bool.and_eq_false_iff, decide_eq_false_iff_not] at belated
  omega

theorem Sound.locate {manager : BlockManager} (sound : manager.Sound) (call : WriteCall)
    (occupied : ∃ blockId, manager.InService blockId) :
    ((∀ blockId, manager.InService blockId → call.time < blockId) ∧
        manager.locateBlock call =
          (.ok (.belatedFirst, (manager.startNewBlock call.time call.settings.maxBlockSize).1),
            (manager.startNewBlock call.time call.settings.maxBlockSize).2)) ∨
      ∃ blockId ref after, manager.Covers blockId call.time ∧ manager.findBlockId call.time = .ok blockId ∧
        Loaded manager after blockId ref ∧ manager.locateBlock call = (.ok (.belated, ref), after) := by
  cases head : manager.blockIndex.activeTree.head? with
  | none =>
    obtain ⟨blockId, served⟩ := occupied
    simp [InService, List.head?_eq_none_iff.mp head] at served
  | some first =>
    obtain ⟨served, least⟩ := head_sorted (BlockIndex.activeTree_sorted manager.blockIndex) first head
    by_cases later : first > call.time
    · refine Or.inl ⟨fun blockId found => later.trans_le (least blockId found), ?_⟩
      simp only [locateBlock, head, if_pos later]
    · obtain ⟨blockId, found⟩ : ∃ blockId, manager.findBlockId call.time = .ok blockId := by
        simp only [findBlockId_iff]
        exact manager.exists_covers ⟨first, served, Nat.not_lt.mp later⟩
      have covers := (findBlockId_iff manager call.time blockId).mp found
      obtain ⟨ref, after, result, loaded⟩ := sound.toSteady.load blockId covers.1
      refine Or.inr ⟨blockId, ref, after, covers, found, loaded, ?_⟩
      simp only [locateBlock, head, if_neg later, findBlock, found, result]

theorem Sound.meet_record {manager : BlockManager} (sound : manager.Sound) {blockId : Nat} {ref : BlockRef}
    (cached : manager.Cached blockId ref) (call : WriteCall) (covers : manager.Covers blockId call.time)
    (record : Record) (stored : (manager.heap ref).getRecord call.time = some record) :
    Written manager call
      (if record.isReplaceable call.contentSize then
        (manager.overwriteRecord call ref record).openWriter ref call.time
      else (.error (alreadyExists call.time), manager)) := by
  have stamped := Block.getRecord_timestamp stored
  have seen := sound.toSteady.cached_view cached
  cases replaceable : record.isReplaceable call.contentSize with
  | false =>
    simp only [Bool.false_eq_true, if_false]
    exact ⟨.refl, .refused covers seen stored replaceable rfl, fun _ _ _ => Or.inl rfl⟩
  | true =>
    have replaced (old : Record) (present : (manager.heap ref).getRecord record.timestamp = some old) :
        old.state ≠ .finished ∧ old.SamePlace (record.overwritten call) := by
      rw [stamped, stored, Option.some.injEq] at present
      subst present
      simp only [Record.isReplaceable, Bool.and_eq_true, decide_eq_true_eq] at replaceable
      exact ⟨by simp [replaceable.1], rfl, rfl⟩
    obtain ⟨after, written, placed, data⟩ := sound.write cached (record.overwritten call) rfl replaced
    rw [show (record.overwritten call).timestamp = call.time from stamped] at written
    simp only [if_true, overwriteRecord, written]
    have outcome := Outcome.overwrite covers seen stored replaceable placed.view
    exact ⟨placed.steps, outcome, fun _ _ _ => Or.inl (by rw [data])⟩

theorem Sound.selects {manager : BlockManager} (sound : manager.Sound) {call : WriteCall} {block : Block}
    (selected : manager.selected call = some block) : ∃ blockId, manager.Selects call blockId block := by
  have chosen := selected
  unfold BlockManager.selected at chosen
  cases last : manager.blockIndex.activeTree.getLast?.bind manager.view with
  | none => simp [last] at chosen
  | some newest =>
    obtain ⟨latest, isLast, seen⟩ := Option.bind_eq_some_iff.mp last
    simp only [last] at chosen
    cases belated : newest.isBelated call.time with
    | false =>
      simp only [belated, Bool.false_eq_true, if_false, Option.some.injEq] at chosen
      subst chosen
      refine ⟨latest, selected, seen, ?_, Or.inl ⟨(latest_iff manager latest).mp isLast, belated⟩⟩
      cases found : newest.getRecord call.time with
      | none => rfl
      | some record =>
        exact absurd (before_of_not_belated (sound.accounted latest newest seen) belated _ record found)
          (Nat.lt_irrefl _)
    | true =>
      simp only [belated, if_true] at chosen
      cases found : manager.findBlockId call.time with
      | error failure => simp [found] at chosen
      | ok blockId =>
        simp only [found, Option.filter_eq_some_iff, Option.isNone_iff_eq_none] at chosen
        exact ⟨blockId, selected, chosen.1, chosen.2, Or.inr ((findBlockId_iff manager call.time blockId).mp found)⟩

theorem Sound.lead {manager : BlockManager} (sound : manager.Sound) {call : WriteCall} {block : Block}
    (chosen : manager.selected call = some block) :
    ∃ blockId ref middle, Quiet manager middle ∧ middle.Cached blockId ref ∧ middle.heap ref = block ∧
      middle.Selects call blockId block ∧ manager.beginWrite call = middle.appendRecord call ref := by
  cases last : manager.blockIndex.activeTree.getLast? with
  | none => simp [selected, last] at chosen
  | some latest =>
    have isLatest := (latest_iff manager latest).mp last
    obtain ⟨ref, middle, result, loaded⟩ := sound.toSteady.load latest isLatest.1
    have quiet := loaded.quiet sound.toSteady
    have middleSound := (Primitive.load loaded).sound sound
    have seen := middleSound.toSteady.cached_view loaded.cached
    have middleLast : middle.blockIndex.activeTree.getLast? = some latest := by rw [quiet.index, last]
    rw [← quiet.selected] at chosen
    simp only [beginWrite, selectBlock, last, result]
    cases belated : (middle.heap ref).isBelated call.time with
    | false =>
      have same : middle.heap ref = block := by simpa [selected, middleLast, seen, belated] using chosen
      have vacant : block.getRecord call.time = none := by
        cases found : block.getRecord call.time with
        | none => rfl
        | some record =>
          exact absurd (before_of_not_belated (middleSound.accounted latest _ seen) belated _ record (same ▸ found))
            (Nat.lt_irrefl _)
      refine ⟨latest, ref, middle, quiet, loaded.cached, same, ⟨chosen, same ▸ seen, vacant, ?_⟩, by simp⟩
      exact Or.inl ⟨(latest_iff middle latest).mp middleLast, same ▸ belated⟩
    | true =>
      rcases middleSound.locate call ⟨latest, middleSound.served latest ref loaded.cached⟩ with
        ⟨later, located⟩ | ⟨blockId, other, final, covers, found, again, located⟩
      · have missing (blockId : Nat) : middle.findBlockId call.time ≠ .ok blockId := fun found => by
          have covers := (findBlockId_iff middle call.time blockId).mp found
          exact absurd (later blockId covers.1) (Nat.not_lt.mpr covers.2.1)
        cases found : middle.findBlockId call.time with
        | error failure => simp [selected, middleLast, seen, belated, found] at chosen
        | ok blockId => exact absurd found (missing blockId)
      · have finalQuiet := again.quiet middleSound.toSteady
        have finalSound := (Primitive.load again).sound middleSound
        have finalSeen := finalSound.toSteady.cached_view again.cached
        have middleSeen : middle.view blockId = some (final.heap other) := finalQuiet.view ▸ finalSeen
        obtain ⟨same, stored⟩ : final.heap other = block ∧ block.getRecord call.time = none := by
          simpa [selected, middleLast, seen, belated, found, middleSeen, Option.filter_eq_some_iff] using chosen
        refine ⟨blockId, other, final, quiet.trans finalQuiet, again.cached, same, ?_, by simp [located, same, stored]⟩
        refine ⟨(finalQuiet.selected call).trans chosen, same ▸ finalSeen, stored, Or.inr ?_⟩
        simpa only [Covers, InService, finalQuiet.index] using covers

theorem beginWrite_written {manager : BlockManager} (sound : manager.Sound) (call : WriteCall)
    (safe : manager.displaces call = false) : Written manager call (manager.beginWrite call) := by
  cases chosen : manager.selected call with
  | some block =>
    obtain ⟨blockId, ref, middle, quiet, cached, rfl, selects, result⟩ := sound.lead chosen
    rw [result]
    refine quiet.written ((quiet.run.sound sound).append_selected cached call selects fun full => ?_)
    simpa [BlockManager.displaces, chosen, full, InService, quiet.index] using safe
  | none =>
    cases last : manager.blockIndex.activeTree.getLast? with
    | none =>
      have absent (blockId : Nat) : ¬ manager.InService blockId := by
        simp [InService, List.getLast?_eq_none_iff.mp last]
      obtain ⟨after, result, placed, data⟩ := sound.start_append call (absent call.time)
      have content := startNewBlock_heap manager call.time call.settings.maxBlockSize
      have early : (Block.new call.time).isBelated call.time = false := by simp [Block.isBelated]
      simp only [beginWrite, selectBlock, last, content, early, Bool.false_eq_true, if_false, result]
      refine ⟨placed.steps, .fresh (absent call.time) (Or.inl fun blockId served => absurd served (absent blockId))
        placed.view, ?_⟩
      intro blockId block seen
      exact absurd ((sound.toSteady.view_iff blockId block).mp seen).1 (absent blockId)
    | some latest =>
      have isLatest := (latest_iff manager latest).mp last
      obtain ⟨ref, middle, result, loaded⟩ := sound.toSteady.load latest isLatest.1
      have quiet := loaded.quiet sound.toSteady
      have middleSound := (Primitive.load loaded).sound sound
      have seen := middleSound.toSteady.cached_view loaded.cached
      have middleLast : middle.blockIndex.activeTree.getLast? = some latest := by rw [quiet.index, last]
      rw [← quiet.selected] at chosen
      refine quiet.written ?_
      have belated : (middle.heap ref).isBelated call.time = true := by
        by_contra early
        simp [selected, middleLast, seen, early] at chosen
      simp only [beginWrite, selectBlock, last, result, belated, if_true]
      rcases middleSound.locate call ⟨latest, middleSound.served latest ref loaded.cached⟩ with
        ⟨later, located⟩ | ⟨blockId, other, final, covers, found, again, located⟩
      · have absent : ¬ middle.InService call.time := fun served => absurd (later _ served) (Nat.lt_irrefl _)
        obtain ⟨after, started, placed, data⟩ := middleSound.start_append call absent
        simp only [located, started]
        refine ⟨placed.steps, .fresh absent (Or.inl later) placed.view, ?_⟩
        intro other block view
        have different : other ≠ call.time := by
          rintro rfl
          exact absent ((middleSound.toSteady.view_iff _ block).mp view).1
        exact Or.inl (data other different)
      · have finalQuiet := again.quiet middleSound.toSteady
        have finalSound := (Primitive.load again).sound middleSound
        have finalSeen := finalSound.toSteady.cached_view again.cached
        have finalCovers : final.Covers blockId call.time := by
          simpa only [Covers, InService, finalQuiet.index] using covers
        have middleSeen : middle.view blockId = some (final.heap other) := finalQuiet.view ▸ finalSeen
        refine finalQuiet.written ?_
        simp only [located]
        cases stored : (final.heap other).getRecord call.time with
        | none => simp [selected, middleLast, seen, belated, found, middleSeen, stored] at chosen
        | some record => exact finalSound.meet_record again.cached call finalCovers record stored

structure Opened (before after : BlockManager) (call : WriteCall) (context : WriteContext) (block : Block) : Prop where
  view : after.view = Function.update before.view context.blockId (some block)
  time : context.recordTimestamp = call.time
  size : context.contentSize = call.contentSize
  held : ∃ record, block.getRecord call.time = some record ∧ record.beginPos = context.offset ∧
    record.length = context.contentSize ∧ record.state = .started
  others : ∀ time old, time ≠ call.time → before.view context.blockId = some old →
    block.getRecord time = old.getRecord time

theorem opened_prepared (block : Block) (call : WriteCall) (context : WriteContext) (offset : context.offset = block.size)
    (size : context.contentSize = call.contentSize) :
    ∃ record, (prepared block call).getRecord call.time = some record ∧ record.beginPos = context.offset ∧
      record.length = context.contentSize ∧ record.state = .started := by
  refine ⟨block.startedRecord call.time call.contentSize call.contentType call.labels, ?_, offset.symm, ?_, rfl⟩
  · simp [Block.prepareForWriting, Block.startedRecord]
  · simp [Record.length, Block.startedRecord, size]

theorem Outcome.opened {before after : BlockManager} {call : WriteCall} {context : WriteContext}
    (steady : before.Steady) (outcome : Outcome before call (.ok context) after) :
    ∃ block, Opened before after call context block := by
  cases outcome with
  | fresh absent cause view =>
    refine ⟨_, view, rfl, rfl, opened_prepared _ call _ rfl rfl, ?_⟩
    intro time old different seen
    simp [(steady.view_none call.time).mpr absent] at seen
  | within selects room view =>
    refine ⟨_, view, rfl, rfl, opened_prepared _ call _ rfl rfl, ?_⟩
    intro time old different seen
    obtain rfl := Option.some.inj (selects.seen.symm.trans seen)
    simp [Block.prepareForWriting, Block.startedRecord, different]
  | @overwrite _ blockId block record covers seen found replaceable view =>
    have stamped := Block.getRecord_timestamp found
    simp only [Record.isReplaceable, Bool.and_eq_true, decide_eq_true_eq] at replaceable
    refine ⟨_, view, rfl, replaceable.2,
      ⟨record.overwritten call, by simp [Record.overwritten, stamped], rfl, rfl, rfl⟩, ?_⟩
    intro time old different seenOld
    obtain rfl := Option.some.inj (seen.symm.trans seenOld)
    simp [Record.overwritten, stamped, different]

end Outcome

end ReductStore.BlockManager
