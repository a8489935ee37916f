import ReductStore.Storage.Alike

set_option autoImplicit false

namespace ReductStore

structure UpdateLabels where
  time : Nat
  update : List Label
  remove : List String
  deriving DecidableEq

def updateSingleLabel (record : Record) (update : List Label) (remove : List String) : Record :=
  let (newLabels, update) := record.labels.foldl (fun (newLabels, update) label =>
    if label.name ∈ remove then (newLabels, update)
    else
      match update.find? (·.name = label.name) with
      | some found => (newLabels ++ [found], update.filter (·.name ≠ label.name))
      | none => (newLabels ++ [label], update)) ([], update)
  { record with labels := newLabels ++ update }

theorem updateSingleLabel_place (record : Record) (update : List Label) (remove : List String) :
    (updateSingleLabel record update remove).timestamp = record.timestamp ∧
      record.SamePlace (updateSingleLabel record update remove) := ⟨rfl, rfl, rfl⟩

namespace BlockManager

def recordMissing (manager : BlockManager) (time : Nat) : ReductError :=
  notFound ("Record " ++ toString time ++ " not found in entry " ++ manager.bucket ++ "/" ++ manager.entry)

variable [Codec]

def locateRecord (manager : BlockManager) (time : Nat) : Except ReductError (Nat × Record) × BlockManager :=
  match manager.findBlock time with
  | (.error failure, manager) => (.error failure, manager)
  | (.ok ref, manager) =>
    match (manager.heap ref).getRecord time with
    | none => (.error (manager.recordMissing time), manager)
    | some record => (.ok ((manager.heap ref).blockId, record), manager)

def locateRecords : List UpdateLabels → BlockManager →
    List (Nat × Except ReductError (List Label)) × List (Nat × Record) × BlockManager
  | [], manager => ([], [], manager)
  | { time, update, remove } :: updates, manager =>
    match manager.locateRecord time with
    | (.error failure, manager) =>
      let (result, located, manager) := locateRecords updates manager
      ((time, .error failure) :: result, located, manager)
    | (.ok (blockId, record), manager) =>
      let record := updateSingleLabel record update remove
      let (result, located, manager) := locateRecords updates manager
      ((time, .ok record.labels) :: result, (blockId, record) :: located, manager)

def writeBack (located : List (Nat × Record)) : List Nat → BlockManager → Except ReductError Unit × BlockManager
  | [], manager => (.ok (), manager)
  | blockId :: blockIds, manager =>
    let records := (located.filter (·.1 = blockId)).map Prod.snd
    match manager.updateRecords blockId records with
    | (.ok (), manager) => writeBack located blockIds manager
    | (.error failure, manager) => (.error failure, (writeBack located blockIds manager).2)

def updateLabels (manager : BlockManager) (updates : List UpdateLabels) :
    Except ReductError (List (Nat × Except ReductError (List Label))) × BlockManager :=
  let (result, located, manager) := locateRecords updates manager
  let (written, manager) := writeBack located ((located.map Prod.fst).mergeSort.dedup) manager
  (written.map fun _ => result, manager)

section Sections

variable {manager other : BlockManager} {time : Nat}

theorem Stocked.locates (stocked : manager.Stocked) (time : Nat) :
    Quiet manager (manager.locateRecord time).2 ∧
      ((∃ failure, (manager.locateRecord time).1 = .error failure ∧
          ∀ blockId, manager.Covers blockId time → (manager.view blockId).bind (·.getRecord time) = none) ∨
        ∃ blockId record, (manager.locateRecord time).1 = .ok (blockId, record) ∧ manager.Covers blockId time ∧
          (manager.view blockId).bind (·.getRecord time) = some record) := by
  have idle : Quiet manager manager := ⟨.refl, rfl, rfl, rfl⟩
  rw [locateRecord, findBlock]
  cases search : manager.findBlockId time with
  | error failure =>
    refine ⟨idle, Or.inl ⟨failure, rfl, fun blockId covers => ?_⟩⟩
    rw [(findBlockId_iff manager time blockId).mpr covers] at search
    cases search
  | ok blockId =>
    have covers := (findBlockId_iff manager time blockId).mp search
    obtain ⟨ref, after, result, loaded⟩ := stocked.toSteady.load blockId covers.1
    have quiet := loaded.quiet stocked.toSteady
    have content := (loaded.steady stocked.toSteady).cached_view loaded.cached
    rw [quiet.view] at content
    have only (other : Nat) (also : manager.Covers other time) : other = blockId :=
      le_antisymm (covers.2.2 other also.1 also.2.1) (also.2.2 blockId covers.1 covers.2.1)
    simp only [result]
    cases found : (after.heap ref).getRecord time with
    | none =>
      refine ⟨quiet, Or.inl ⟨_, rfl, fun other also => ?_⟩⟩
      rw [only other also, content, Option.bind_some, found]
    | some record =>
      refine ⟨quiet, Or.inr ⟨blockId, record, ?_, covers, ?_⟩⟩
      · rw [loaded.name]
      · rw [content, Option.bind_some, found]

theorem updateLabels_missing {call : UpdateLabels} {failure : ReductError}
    (located : (manager.locateRecord call.time).1 = .error failure) :
    (manager.updateLabels [call]).2 = (manager.locateRecord call.time).2 := by
  rcases reply : manager.locateRecord call.time with ⟨result, after⟩
  rw [reply] at located
  simp only at located
  subst located
  simp [updateLabels, locateRecords, reply, writeBack]

theorem updateLabels_found {call : UpdateLabels} {blockId : Nat} {record : Record}
    (located : (manager.locateRecord call.time).1 = .ok (blockId, record)) :
    (manager.updateLabels [call]).2 = ((manager.locateRecord call.time).2.updateRecords blockId
      [updateSingleLabel record call.update call.remove]).2 := by
  rcases reply : manager.locateRecord call.time with ⟨result, after⟩
  rw [reply] at located
  simp only at located
  subst located
  have alone : [blockId].mergeSort.dedup = [blockId] := by simp
  simp only [updateLabels, locateRecords, reply, List.map_cons, List.map_nil, alone, writeBack, List.filter_cons,
    decide_true, if_true, List.filter_nil]
  rcases after.updateRecords blockId [updateSingleLabel record call.update call.remove] with ⟨_ | _, final⟩
  · rfl
  · rfl

end Sections

section Interleaving

structure PendingUpdate where
  call : UpdateLabels
  blockId : Nat
  record : Record
  deriving DecidableEq

inductive EntryCall where
  | updateLabels (call : UpdateLabels)
  | finishWriteRecord (blockId : Nat) (state : RecordState) (time : Nat)
  | removeRecords (blockId : Nat) (times : List Nat)

def execute (manager : BlockManager) : EntryCall → BlockManager
  | .updateLabels call => (manager.updateLabels [call]).2
  | .finishWriteRecord blockId state time => (manager.finishWriteRecord blockId state time).2
  | .removeRecords blockId times => (manager.removeRecords blockId times).2

inductive CallSection where
  | locate (call : UpdateLabels)
  | writeBack (index : Nat)
  | finishWriteRecord (blockId : Nat) (state : RecordState) (time : Nat)
  | removeRecords (blockId : Nat) (times : List Nat)

end Interleaving

end BlockManager

open BlockManager

structure Labelling where
  manager : BlockManager
  pending : List PendingUpdate
  completed : List EntryCall

namespace Labelling

variable [Codec]

def apply (labelling : Labelling) : CallSection → Labelling
  | .locate call =>
    match labelling.manager.locateRecord call.time with
    | (.error _, manager) => { labelling with manager, completed := labelling.completed ++ [.updateLabels call] }
    | (.ok (blockId, record), manager) =>
      { labelling with manager, pending := labelling.pending ++ [{ call, blockId, record }] }
  | .writeBack index =>
    match labelling.pending[index]? with
    | none => labelling
    | some { call, blockId, record } =>
      { manager := (labelling.manager.updateRecords blockId [updateSingleLabel record call.update call.remove]).2
        pending := labelling.pending.eraseIdx index
        completed := labelling.completed ++ [.updateLabels call] }
  | .finishWriteRecord blockId state time =>
    { labelling with
      manager := (labelling.manager.finishWriteRecord blockId state time).2
      completed := labelling.completed ++ [.finishWriteRecord blockId state time] }
  | .removeRecords blockId times =>
    { labelling with
      manager := (labelling.manager.removeRecords blockId times).2
      completed := labelling.completed ++ [.removeRecords blockId times] }

omit [Codec] in
/-- A copy is written back while the block still has the record as it was copied, and no block is used that is marked
    as corrupted. -/
def Undisturbed (labelling : Labelling) : CallSection → Prop
  | .locate _ => True
  | .writeBack index => ∀ update ∈ labelling.pending[index]?,
      (labelling.manager.view update.blockId).bind (·.getRecord update.call.time) = some update.record
  | .finishWriteRecord blockId _ _ | .removeRecords blockId _ => ¬ labelling.manager.Lost blockId

omit [Codec] in
instance (labelling : Labelling) (operation : CallSection) : Decidable (labelling.Undisturbed operation) := by
  cases operation <;> unfold Undisturbed <;> infer_instance

omit [Codec] in
def Located (manager : BlockManager) (update : PendingUpdate) : Prop :=
  update.blockId ≤ update.call.time ∧
    ∀ other, manager.InService other → other ≤ update.call.time → other ≤ update.blockId

structure Follows (labelling : Labelling) (model : BlockManager) : Prop extends Alike labelling.manager model where
  stocked : labelling.manager.Stocked
  sequential : model.Stocked
  located : ∀ update ∈ labelling.pending, Located labelling.manager update

variable {labelling : Labelling} {model : BlockManager}

theorem Follows.shrink (follows : labelling.Follows model) {after : BlockManager} (steady : after.Steady)
    (service : ∀ blockId, labelling.manager.view blockId = none → after.view blockId = none) :
    ∀ update ∈ labelling.pending, Located after update := by
  intro update member
  obtain ⟨early, nearest⟩ := follows.located update member
  refine ⟨early, fun other served reached => nearest other ?_ reached⟩
  by_contra outside
  have unseen := service other ((follows.stocked.toSteady.view_none other).mpr outside)
  exact (steady.view_none other).mp unseen served

theorem Follows.covers_iff (follows : labelling.Follows model) (blockId time : Nat) :
    model.Covers blockId time ↔ labelling.manager.Covers blockId time := by
  have served (other : Nat) : model.InService other ↔ labelling.manager.InService other := by
    rw [follows.sequential.toSteady.served_iff, follows.stocked.toSteady.served_iff, follows.view]
  simp only [Covers, served]

theorem Follows.locate (follows : labelling.Follows model) (call : UpdateLabels) :
    ∃ calls, (labelling.apply (.locate call)).completed = labelling.completed ++ calls ∧
      (labelling.apply (.locate call)).Follows (calls.foldl execute model) := by
  obtain ⟨quiet, outcome⟩ := follows.stocked.locates call.time
  have stocked := follows.stocked.same quiet.run quiet.view
  have same := alike_quiet quiet.view quiet.index (congrArg Disk.data quiet.disk)
  have located := follows.shrink stocked.toSteady fun blockId unseen => by rw [quiet.view, unseen]
  rcases reply : labelling.manager.locateRecord call.time with ⟨result, after⟩
  rw [reply] at quiet outcome stocked same located
  rcases outcome with ⟨failure, rfl, absent⟩ | ⟨blockId, record, rfl, covers, found⟩
  · -- the sequential call finds no record either
    obtain ⟨otherQuiet, otherOutcome⟩ := follows.sequential.locates call.time
    rcases otherOutcome with ⟨otherFailure, missing, _⟩ | ⟨blockId, record, _, covers, found⟩
    · refine ⟨[.updateLabels call], by simp [apply, reply], ?_⟩
      simp only [apply, reply, List.foldl_cons, List.foldl_nil, execute, updateLabels_missing missing]
      have otherSame := alike_quiet otherQuiet.view otherQuiet.index (congrArg Disk.data otherQuiet.disk)
      exact ⟨(same.symm.trans follows.toAlike).trans otherSame, stocked,
        follows.sequential.same otherQuiet.run otherQuiet.view, located⟩
    · rw [follows.view, absent blockId ((follows.covers_iff blockId call.time).mp covers)] at found
      cases found
  · refine ⟨[], by simp [apply, reply], ?_⟩
    simp only [apply, reply, List.foldl_nil]
    refine ⟨same.symm.trans follows.toAlike, stocked, follows.sequential, fun update member => ?_⟩
    rcases List.mem_append.mp member with old | new
    · exact located update old
    · obtain rfl := List.mem_singleton.mp new
      refine ⟨covers.2.1, fun other served reached => covers.2.2 other ?_ reached⟩
      rwa [InService, quiet.index] at served

theorem Follows.writeBack (follows : labelling.Follows model) {index : Nat}
    (undisturbed : labelling.Undisturbed (.writeBack index)) :
    ∃ calls, (labelling.apply (.writeBack index)).completed = labelling.completed ++ calls ∧
      (labelling.apply (.writeBack index)).Follows (calls.foldl execute model) := by
  cases present : labelling.pending[index]? with
  | none => exact ⟨[], by simp [apply, present], by simpa [apply, present] using follows⟩
  | some update =>
    obtain ⟨call, blockId, record⟩ := update
    obtain ⟨block, seen, found⟩ := Option.bind_eq_some_iff.mp (undisturbed _ present)
    simp only at seen found
    have member := List.mem_of_getElem? present
    obtain ⟨early, nearest⟩ := follows.located _ member
    have covers : labelling.manager.Covers blockId call.time :=
      ⟨(follows.stocked.toSteady.served_iff blockId).mpr ⟨block, seen⟩, early, nearest⟩
    have otherCovers := (follows.covers_iff blockId call.time).mpr covers
    have again : (model.view blockId).bind (·.getRecord call.time) = some record := by
      rw [follows.view, seen, Option.bind_some, found]
    obtain ⟨quiet, outcome⟩ := follows.sequential.locates call.time
    rcases outcome with ⟨_, _, absent⟩ | ⟨otherId, other, located, otherwise, otherFound⟩
    · rw [absent blockId otherCovers] at again
      cases again
    · obtain rfl : otherId = blockId :=
        le_antisymm (otherCovers.2.2 otherId otherwise.1 otherwise.2.1) (otherwise.2.2 blockId otherCovers.1 otherCovers.2.1)
      obtain rfl := Option.some.inj (otherFound.symm.trans again)
      have stamped := Block.getRecord_timestamp found
      obtain ⟨sameTime, place⟩ := updateSingleLabel_place other call.update call.remove
      have alike := follows.toAlike.trans (alike_quiet quiet.view quiet.index (congrArg Disk.data quiet.disk))
      obtain ⟨stocked, sequential, after⟩ := alike.replace follows.stocked
        (follows.sequential.same quiet.run quiet.view) seen found (sameTime.trans stamped) place
      have changed := (follows.stocked.replaces seen found (sameTime.trans stamped) place).2
      refine ⟨[.updateLabels call], by simp [apply, present], ?_⟩
      simp only [apply, present, List.foldl_cons, List.foldl_nil, execute, updateLabels_found located]
      exact ⟨after, stocked, sequential, fun update kept =>
        follows.shrink stocked.toSteady (changed.service seen) update (List.mem_of_mem_eraseIdx kept)⟩

theorem Follows.finish (follows : labelling.Follows model) {blockId time : Nat} {state : RecordState}
    (unmarked : ¬ labelling.manager.Lost blockId) :
    (labelling.apply (.finishWriteRecord blockId state time)).Follows
      (model.execute (.finishWriteRecord blockId state time)) := by
  obtain ⟨stocked, sequential, alike⟩ :=
    follows.toAlike.finish follows.stocked follows.sequential blockId state time unmarked
  refine ⟨alike, stocked, sequential, follows.shrink stocked.toSteady fun other unseen => ?_⟩
  rcases (follows.stocked.finishes blockId state time unmarked).2 with ⟨block, _, seen, _, changed⟩ | ⟨_, quiet⟩
  · exact changed.service seen other unseen
  · exact (congrFun quiet.view other).trans unseen

theorem Follows.remove (follows : labelling.Follows model) {blockId : Nat} {times : List Nat}
    (unmarked : ¬ labelling.manager.Lost blockId) :
    (labelling.apply (.removeRecords blockId times)).Follows (model.execute (.removeRecords blockId times)) := by
  obtain ⟨stocked, sequential, alike⟩ := follows.toAlike.remove follows.stocked follows.sequential blockId times unmarked
  exact ⟨alike, stocked, sequential, follows.shrink stocked.toSteady
    fun other unseen => follows.stocked.remove_service blockId times unmarked other unseen⟩

theorem Follows.step (follows : labelling.Follows model) (operation : CallSection)
    (undisturbed : labelling.Undisturbed operation) :
    ∃ calls, (labelling.apply operation).completed = labelling.completed ++ calls ∧
      (labelling.apply operation).Follows (calls.foldl execute model) := by
  cases operation with
  | locate call => exact follows.locate call
  | writeBack index => exact follows.writeBack undisturbed
  | finishWriteRecord blockId state time => exact ⟨[.finishWriteRecord blockId state time], rfl, follows.finish undisturbed⟩
  | removeRecords blockId times => exact ⟨[.removeRecords blockId times], rfl, follows.remove undisturbed⟩

/-- Updates of labels, ends of writers and removals have the effect of the completed calls, one after the other. -/
theorem calls_linearize (path bucket entry : String) (backendType : BackendType) (evictions : List (List Nat))
    (manager : BlockManager)
    (history : Runs perform (fun current operation => current.Sequential operation ∧ current.Harmless operation)
      (created path bucket entry backendType evictions) manager)
    (labelling : Labelling)
    (run : Runs apply Undisturbed { manager, pending := [], completed := [] } labelling) :
    (labelling.completed.foldl execute manager).view = labelling.manager.view ∧
      ∀ blockId block time record, labelling.manager.view blockId = some block → block.getRecord time = some record →
        File.range ((labelling.completed.foldl execute manager).dataOf blockId) record.beginPos record.endPos =
          File.range (labelling.manager.dataOf blockId) record.beginPos record.endPos := by
  have stocked := stocked_of_history path bucket entry backendType evictions history
  have initial : Follows { manager, pending := [], completed := [] } manager :=
    ⟨.refl manager, stocked, stocked, fun update member => by cases member⟩
  have follows := run.linearizes Labelling.completed execute Follows rfl initial
    fun current operation model follows allowed => follows.step operation allowed
  exact ⟨follows.view, follows.bytes⟩

end Labelling

end ReductStore

namespace ReductStore.Labelling

open BlockManager

def oneWriter : BlockManager := smallEntry.perform (.beginWrite (smallWrite 5 1))

theorem oneWriter_history :
    Runs perform (fun current operation => current.Sequential operation ∧ current.Harmless operation) smallEntry oneWriter := by
  refine .step .start _ ⟨trivial, ?_⟩
  show smallEntry.displaces (smallWrite 5 1) = false
  decide +kernel

def addLabel : UpdateLabels := { time := 5, update := [{ name := "a", value := "b" }], remove := [] }

def labelledFirst : List CallSection := [.locate addLabel, .writeBack 0, .finishWriteRecord 5 .finished 5]

theorem calls_linearize_labelled_first :
    let final := labelledFirst.foldl apply { manager := oneWriter, pending := [], completed := [] }
    (final.completed.foldl execute oneWriter).view = final.manager.view ∧
      ∀ blockId block time record, final.manager.view blockId = some block → block.getRecord time = some record →
        File.range ((final.completed.foldl execute oneWriter).dataOf blockId) record.beginPos record.endPos =
          File.range (final.manager.dataOf blockId) record.beginPos record.endPos :=
  calls_linearize "entry" "bucket" "entry" .filesystem [] oneWriter oneWriter_history _
    (.of_list labelledFirst _ (by decide +kernel))

def finishedBetween : List CallSection := [.locate addLabel, .finishWriteRecord 5 .finished 5, .writeBack 0]

def stateOf (manager : BlockManager) (time : Nat) : Option RecordState :=
  ((manager.view time).bind (·.getRecord time)).map Record.state

theorem calls_not_linear :
    let final := finishedBetween.foldl apply { manager := oneWriter, pending := [], completed := [] }
    Runs apply (fun _ _ => True) { manager := oneWriter, pending := [], completed := [] } final ∧
      final.pending = [] ∧ stateOf final.manager 5 = some .started ∧
      stateOf ((oneWriter.execute (.finishWriteRecord 5 .finished 5)).execute (.updateLabels addLabel)) 5 = some .finished ∧
      stateOf ((oneWriter.execute (.updateLabels addLabel)).execute (.finishWriteRecord 5 .finished 5)) 5 = some .finished := by
  refine ⟨.of_list finishedBetween _ fun _ _ => trivial, ?_, ?_, ?_, ?_⟩
  · decide +kernel
  · decide +kernel
  · decide +kernel
  · decide +kernel

end ReductStore.Labelling
