import ReductStore.Storage.LabelUpdates

set_option autoImplicit false

namespace ReductStore

def labelValue (labels : List Label) (name : String) : Option String := (labels.find? (·.name = name)).map Label.value

def UpdateLabels.applied (item : UpdateLabels) (labels : String → Option String) (name : String) : Option String :=
  match labelValue item.update name with
  | some value => some value
  | none => if name ∈ item.remove then none else labels name

def UpdateLabels.mentions (item : UpdateLabels) (name : String) : Prop :=
  (labelValue item.update name).isSome ∨ name ∈ item.remove

section Law

theorem labelValue_append (front back : List Label) (name : String) :
    labelValue (front ++ back) name = (labelValue front name).or (labelValue back name) := by
  unfold labelValue
  rw [List.find?_append]
  cases front.find? (·.name = name) <;> rfl

theorem labelValue_cons (label : Label) (rest : List Label) (name : String) :
    labelValue (label :: rest) name = if label.name = name then some label.value else labelValue rest name := by
  unfold labelValue
  by_cases same : label.name = name
  · simp [same]
  · simp [same]

theorem labelValue_filter (labels : List Label) (removed name : String) (apart : removed ≠ name) :
    labelValue (labels.filter (·.name ≠ removed)) name = labelValue labels name := by
  induction labels with
  | nil => rfl
  | cons label rest ih =>
    by_cases own : label.name = removed
    · have other : label.name ≠ name := own ▸ apart
      rw [List.filter_cons_of_neg (by simpa using own), ih, labelValue_cons, if_neg other]
    · rw [List.filter_cons_of_pos (by simpa using own), labelValue_cons, labelValue_cons, ih]

-- The labels that were passed are kept in front; those still to be updated shrink.
theorem foldl_labels (name : String) (remove : List String) (labels kept update : List Label) :
    let rest := labels.foldl (fun (newLabels, update) label =>
      if label.name ∈ remove then (newLabels, update)
      else
        match update.find? (·.name = label.name) with
        | some found => (newLabels ++ [found], update.filter (·.name ≠ label.name))
        | none => (newLabels ++ [label], update)) (kept, update)
    labelValue (rest.1 ++ rest.2) name = (labelValue kept name).or
      ((labelValue update name).or (if name ∈ remove then none else labelValue labels name)) := by
  induction labels generalizing kept update with
  | nil =>
    have none : labelValue [] name = none := rfl
    simp [labelValue_append, none]
  | cons label labels ih =>
    rw [List.foldl_cons]
    by_cases removed : label.name ∈ remove
    · simp only [removed, if_true]
      rw [ih]
      by_cases same : label.name = name
      · simp [← same, removed]
      · rw [labelValue_cons, if_neg same]
    · simp only [removed, if_false]
      cases found : update.find? (·.name = label.name) with
      | some replacement =>
        have own : replacement.name = label.name := by simpa using List.find?_some found
        dsimp only
        rw [ih, labelValue_append, labelValue_cons, own, labelValue_cons]
        by_cases same : label.name = name
        · have value : labelValue update name = some replacement.value := by
            rw [labelValue, ← same, found]
            rfl
          simp [same, value]
        · rw [labelValue_filter update label.name name same, if_neg same, if_neg same]
          simp [labelValue]
      | none =>
        have absent : labelValue update label.name = none := by rw [labelValue, found]; rfl
        dsimp only
        rw [ih, labelValue_append, labelValue_cons, labelValue_cons]
        by_cases same : label.name = name
        · simp [← same, absent, removed]
        · simp [same, labelValue]

theorem updateSingleLabel_value (record : Record) (item : UpdateLabels) :
    labelValue (updateSingleLabel record item.update item.remove).labels = item.applied (labelValue record.labels) := by
  funext name
  have whole := foldl_labels name item.remove record.labels [] item.update
  simp only at whole
  rw [UpdateLabels.applied]
  refine whole.trans ?_
  cases labelValue item.update name <;> simp [labelValue]

end Law

namespace BlockManager

def placeOf (manager : BlockManager) (time : Nat) : Option Nat := (manager.findBlockId time).toOption

def recordAt (manager : BlockManager) (time : Nat) : Option Record :=
  (manager.placeOf time).bind fun blockId => (manager.view blockId).bind (·.getRecord time)

def relabelled (manager : BlockManager) (item : UpdateLabels) : Option Record :=
  (manager.recordAt item.time).map (updateSingleLabel · item.update item.remove)

def collected (manager : BlockManager) (item : UpdateLabels) : Option (Nat × Record) :=
  (manager.relabelled item).bind fun record => (manager.placeOf item.time).map (·, record)

def itemsAt (updates : List UpdateLabels) (time : Nat) : List UpdateLabels := updates.filter (·.time = time)

section Records

variable {manager after : BlockManager} {time blockId : Nat}

theorem placeOf_iff (manager : BlockManager) (time blockId : Nat) :
    manager.placeOf time = some blockId ↔ manager.Covers blockId time := by
  rw [← findBlockId_iff, placeOf]
  cases manager.findBlockId time with
  | ok found => simp [Except.toOption]
  | error failure => simp [Except.toOption]

theorem placeOf_same (same : ∀ blockId, after.InService blockId ↔ manager.InService blockId) (time : Nat) :
    after.placeOf time = manager.placeOf time := by
  refine Option.ext fun blockId => ?_
  rw [placeOf_iff, placeOf_iff]
  simp only [Covers, same]

theorem recordAt_timestamp {record : Record} (found : manager.recordAt time = some record) : record.timestamp = time := by
  obtain ⟨blockId, _, seen⟩ := Option.bind_eq_some_iff.mp found
  obtain ⟨block, _, present⟩ := Option.bind_eq_some_iff.mp seen
  exact Block.getRecord_timestamp present

theorem relabelled_timestamp {item : UpdateLabels} {record : Record} (copied : manager.relabelled item = some record) :
    record.timestamp = item.time := by
  obtain ⟨stored, found, rfl⟩ := Option.map_eq_some_iff.mp copied
  exact (updateSingleLabel_place stored item.update item.remove).1.trans (recordAt_timestamp found)

theorem located_at (place : manager.placeOf time = some blockId) (updates : List UpdateLabels) :
    (((updates.filterMap manager.collected).filter (·.1 = blockId)).map Prod.snd).filter (·.timestamp = time) =
      (itemsAt updates time).filterMap manager.relabelled := by
  unfold itemsAt
  induction updates with
  | nil => rfl
  | cons item rest ih =>
    cases copied : manager.relabelled item with
    | none =>
      have dropped : manager.collected item = none := by rw [collected, copied]; rfl
      rw [List.filterMap_cons_none dropped, ih]
      by_cases own : item.time = time
      · rw [List.filter_cons_of_pos (by simpa using own), List.filterMap_cons_none copied]
      · rw [List.filter_cons_of_neg (by simpa using own)]
    | some record =>
      have stamped := relabelled_timestamp copied
      obtain ⟨stored, found, _⟩ := Option.map_eq_some_iff.mp copied
      obtain ⟨target, covered, _⟩ := Option.bind_eq_some_iff.mp found
      have located : manager.collected item = some (target, record) := by rw [collected, copied, covered]; rfl
      rw [List.filterMap_cons_some located]
      by_cases own : item.time = time
      · have same : target = blockId := Option.some.inj ((own ▸ covered).symm.trans place)
        rw [List.filter_cons_of_pos (by simpa using same), List.map_cons,
          List.filter_cons_of_pos (by simpa using stamped.trans own), ih, List.filter_cons_of_pos (by simpa using own),
          List.filterMap_cons_some copied]
      · have skipped : (item :: rest).filter (·.time = time) = rest.filter (·.time = time) :=
          List.filter_cons_of_neg (by simpa using own)
        rw [skipped, ← ih]
        by_cases same : target = blockId
        · rw [List.filter_cons_of_pos (by simpa using same), List.map_cons,
            List.filter_cons_of_neg (by simpa [stamped] using own)]
        · rw [List.filter_cons_of_neg (by simpa using same)]

theorem relabelled_at {item : UpdateLabels} {updates : List UpdateLabels} (member : item ∈ itemsAt updates time) :
    manager.relabelled item = (manager.recordAt time).map (updateSingleLabel · item.update item.remove) := by
  have same : item.time = time := by simpa using (List.mem_filter.mp member).2
  rw [relabelled, same]

theorem relabelled_none (missing : manager.recordAt time = none) (updates : List UpdateLabels) :
    (itemsAt updates time).filterMap manager.relabelled = [] := by
  refine List.filterMap_eq_nil_iff.mpr fun item member => ?_
  rw [relabelled_at member, missing]
  rfl

theorem last_relabelled (manager : BlockManager) (updates : List UpdateLabels) (time : Nat) :
    ((itemsAt updates time).filterMap manager.relabelled).getLast?.or (manager.recordAt time) =
      (itemsAt updates time).getLast?.elim (manager.recordAt time) manager.relabelled := by
  cases stored : manager.recordAt time with
  | none =>
    rw [relabelled_none stored]
    cases last : (itemsAt updates time).getLast? with
    | none => rfl
    | some item =>
      rw [Option.elim_some, relabelled_at (List.mem_of_getLast? last), stored]
      rfl
  | some record =>
    have all : (itemsAt updates time).filterMap manager.relabelled =
        (itemsAt updates time).map fun item => updateSingleLabel record item.update item.remove := by
      rw [← List.filterMap_eq_map]
      refine List.filterMap_congr fun item member => ?_
      rw [relabelled_at member, stored]
      rfl
    rw [all, List.getLast?_map]
    cases last : (itemsAt updates time).getLast? with
    | none => rfl
    | some item =>
      rw [Option.elim_some, relabelled_at (List.mem_of_getLast? last), stored]
      rfl

theorem collected_seen {item : UpdateLabels} {blockId : Nat} {record : Record}
    (located : manager.collected item = some (blockId, record)) : (manager.view blockId).isSome := by
  obtain ⟨copied, found, placed⟩ := Option.bind_eq_some_iff.mp located
  obtain ⟨target, place, same⟩ := Option.map_eq_some_iff.mp placed
  obtain ⟨rfl, _⟩ := Prod.mk.inj same
  obtain ⟨stored, held, _⟩ := Option.map_eq_some_iff.mp found
  rw [recordAt, place, Option.bind_some] at held
  obtain ⟨block, seen, _⟩ := Option.bind_eq_some_iff.mp held
  rw [seen]
  rfl

variable [Codec]

theorem getRecord_updates (records : List Record) (block : Block) (time : Nat) :
    (records.foldl Block.insertOrUpdateRecord block).getRecord time =
      ((records.filter (·.timestamp = time)).getLast?).or (block.getRecord time) := by
  induction records using List.reverseRecOn with
  | nil => rfl
  | append_singleton front record ih =>
    rw [List.foldl_append, List.foldl_cons, List.foldl_nil, Block.getRecord_insertOrUpdate, List.filter_append, ih]
    by_cases own : record.timestamp = time
    · simp [own]
    · simp [own, Ne.symm own]

theorem Stocked.locatesAll (stocked : manager.Stocked) (updates : List UpdateLabels) :
    (locateRecords updates manager).2.2.Stocked ∧ (locateRecords updates manager).2.2.view = manager.view ∧
      (locateRecords updates manager).2.2.blockIndex = manager.blockIndex ∧
      ((locateRecords updates manager).1.map fun entry => (entry.1, entry.2.toOption)) =
        updates.map (fun item => (item.time, (manager.relabelled item).map Record.labels)) ∧
      (locateRecords updates manager).2.1 = updates.filterMap manager.collected := by
  induction updates generalizing manager with
  | nil => exact ⟨stocked, rfl, rfl, rfl, rfl⟩
  | cons item rest ih =>
    obtain ⟨quiet, outcome⟩ := stocked.locates item.time
    rcases reply : manager.locateRecord item.time with ⟨result, middle⟩
    rw [reply] at quiet outcome
    have place (time : Nat) : middle.placeOf time = manager.placeOf time :=
      placeOf_same (fun blockId => by rw [InService, InService, quiet.index]) time
    have copy (other : UpdateLabels) : middle.relabelled other = manager.relabelled other := by
      rw [relabelled, relabelled, recordAt, recordAt, place, quiet.view]
    have collects : middle.collected = manager.collected := by
      funext other
      rw [collected, collected, copy, place]
    obtain ⟨later, view, index, reported, located⟩ := ih (stocked.same quiet.run quiet.view)
    simp only [copy, collects] at reported located
    rcases outcome with ⟨failure, rfl, absent⟩ | ⟨blockId, record, rfl, covers, found⟩
    · have missing : manager.relabelled item = none := by
        rw [relabelled, Option.map_eq_none_iff, recordAt]
        cases where_ : manager.placeOf item.time with
        | none => rfl
        | some blockId => exact absent blockId ((placeOf_iff manager item.time blockId).mp where_)
      simp only [locateRecords, reply]
      refine ⟨later, view.trans quiet.view, index.trans quiet.index, ?_, ?_⟩
      · rw [List.map_cons, List.map_cons, reported, missing]
        rfl
      · rw [located, List.filterMap_cons_none (by rw [collected, missing]; rfl)]
    · have where_ := (placeOf_iff manager item.time blockId).mpr covers
      have copied : manager.relabelled item = some (updateSingleLabel record item.update item.remove) := by
        rw [relabelled, recordAt, where_, Option.bind_some, found]
        rfl
      simp only [locateRecords, reply]
      refine ⟨later, view.trans quiet.view, index.trans quiet.index, ?_, ?_⟩
      · rw [List.map_cons, List.map_cons, reported, copied]
        rfl
      · have own : manager.collected item = some (blockId, updateSingleLabel record item.update item.remove) := by
          rw [collected, copied, where_]
          rfl
        rw [located, List.filterMap_cons_some own]

theorem Sound.writesBack (sound : manager.Sound) (located : List (Nat × Record)) (blockIds : List Nat) (distinct : blockIds.Nodup)
    (seen : ∀ blockId ∈ blockIds, (manager.view blockId).isSome) :
    ∃ after, writeBack located blockIds manager = (.ok (), after) ∧ after.Sound ∧
      ∀ blockId, after.view blockId = if blockId ∈ blockIds then (manager.view blockId).map fun block =>
        ((located.filter (·.1 = blockId)).map Prod.snd).foldl Block.insertOrUpdateRecord block else manager.view blockId := by
  induction blockIds generalizing manager with
  | nil => exact ⟨manager, rfl, sound, fun _ => rfl⟩
  | cons head rest ih =>
    rw [List.nodup_cons] at distinct
    rw [List.forall_mem_cons] at seen
    obtain ⟨block, present⟩ := Option.isSome_iff_exists.mp seen.1
    obtain ⟨middle, result, changed⟩ := sound.updateRecords present ((located.filter (·.1 = head)).map Prod.snd)
    have others (blockId : Nat) (apart : blockId ≠ head) : middle.view blockId = manager.view blockId := by
      rw [changed.view, Function.update_of_ne apart]
    have later : ∀ blockId ∈ rest, (middle.view blockId).isSome := by
      intro blockId member
      rw [others blockId fun same => distinct.1 (same ▸ member)]
      exact seen.2 blockId member
    obtain ⟨after, written, afterSound, view⟩ := ih (changed.run.sound sound) distinct.2 later
    refine ⟨after, by simp only [writeBack, result, written], afterSound, fun blockId => ?_⟩
    rw [view]
    by_cases same : blockId = head
    · subst same
      rw [if_neg distinct.1, if_pos List.mem_cons_self, changed.view, Function.update_self, present]
      rfl
    · rw [others blockId same]
      simp only [List.mem_cons, same, false_or]

theorem Stocked.updatesLabels (stocked : manager.Stocked) (updates : List UpdateLabels) :
    ∃ result, (manager.updateLabels updates).1 = .ok result ∧
      (result.map fun entry => (entry.1, entry.2.toOption)) =
        updates.map (fun item => (item.time, (manager.relabelled item).map Record.labels)) ∧
      ∀ time, (manager.updateLabels updates).2.recordAt time =
        ((itemsAt updates time).getLast?.elim (manager.recordAt time) manager.relabelled) := by
  obtain ⟨middleStocked, view, index, reported, located⟩ := stocked.locatesAll updates
  rcases searched : locateRecords updates manager with ⟨result, copies, middle⟩
  rw [searched] at middleStocked view index reported located
  simp only at middleStocked view reported located
  have seen : ∀ blockId ∈ (copies.map Prod.fst).mergeSort.dedup, (middle.view blockId).isSome := by
    intro blockId member
    rw [List.mem_dedup, List.mem_mergeSort] at member
    obtain ⟨⟨_, record⟩, present, rfl⟩ := List.mem_map.mp member
    obtain ⟨item, _, own⟩ := List.mem_filterMap.mp (located ▸ present)
    rw [view]
    exact collected_seen own
  obtain ⟨after, written, afterSound, content⟩ :=
    middleStocked.toSound.writesBack copies _ (List.nodup_dedup _) seen
  have call : manager.updateLabels updates = (.ok result, after) := by
    rw [updateLabels, searched]
    simp only [written]
    rfl
  rw [call]
  refine ⟨result, rfl, reported, fun time => ?_⟩
  have whole (blockId : Nat) : after.view blockId = (manager.view blockId).map fun block =>
      ((copies.filter (·.1 = blockId)).map Prod.snd).foldl Block.insertOrUpdateRecord block := by
    rw [content, view]
    split_ifs with member
    · rfl
    · have none : copies.filter (·.1 = blockId) = [] := by
        refine List.filter_eq_nil_iff.mpr fun copy present same => member ?_
        rw [List.mem_dedup, List.mem_mergeSort]
        exact List.mem_map.mpr ⟨copy, present, by simpa using same⟩
      simp [none]
  have place : after.placeOf time = manager.placeOf time := by
    refine placeOf_same (fun blockId => ?_) time
    rw [afterSound.toSteady.served_iff, stocked.toSteady.served_iff, ← Option.isSome_iff_exists,
      ← Option.isSome_iff_exists, whole, Option.isSome_map]
  rw [← last_relabelled]
  cases where_ : manager.placeOf time with
  | none =>
    have missing : manager.recordAt time = none := by rw [recordAt, where_]; rfl
    rw [recordAt, place, where_, relabelled_none missing, missing]
    rfl
  | some blockId =>
    have now : manager.recordAt time = (manager.view blockId).bind (·.getRecord time) := by
      rw [recordAt, where_, Option.bind_some]
    rw [recordAt, place, where_, Option.bind_some, whole]
    cases seen : manager.view blockId with
    | none =>
      have missing : manager.recordAt time = none := by rw [now, seen]; rfl
      rw [relabelled_none missing, missing]
      rfl
    | some block =>
      rw [now, seen, Option.map_some, Option.bind_some, Option.bind_some, getRecord_updates, ← located_at where_, ← located]

end Records

section Sequence

variable [Codec]

def inTurn (items : List UpdateLabels) (labels : String → Option String) : String → Option String :=
  items.foldl (fun labels item => item.applied labels) labels

structure AppliesInTurn (manager : BlockManager) (updates : List UpdateLabels) : Prop where
  stored : ∀ time, ((manager.updateLabels updates).2.recordAt time).map (fun record => labelValue record.labels) =
    (manager.recordAt time).map fun record => inTurn (itemsAt updates time) (labelValue record.labels)
  reported : ∃ result, (manager.updateLabels updates).1 = .ok result ∧ ∀ item ∈ updates,
    (result.filter (·.1 = item.time)).getLast?.map (·.2.toOption) =
      some (((manager.updateLabels updates).2.recordAt item.time).map Record.labels)

def Independent (manager : BlockManager) (updates : List UpdateLabels) : Prop :=
  ∀ time record last, manager.recordAt time = some record → (itemsAt updates time).getLast? = some last →
    ∀ name, ¬ last.mentions name →
      inTurn (itemsAt updates time).dropLast (labelValue record.labels) name = labelValue record.labels name

omit [Codec] in
theorem applied_eq_iff (item : UpdateLabels) (first second : String → Option String) :
    item.applied first = item.applied second ↔ ∀ name, ¬ item.mentions name → first name = second name := by
  constructor
  · intro same name unmentioned
    have value := congrFun same name
    simp only [UpdateLabels.mentions, not_or, Option.not_isSome_iff_eq_none] at unmentioned
    simpa only [UpdateLabels.applied, unmentioned.1, if_neg unmentioned.2] using value
  · intro agree
    funext name
    unfold UpdateLabels.applied
    cases value : labelValue item.update name with
    | some _ => rfl
    | none =>
      by_cases removed : name ∈ item.remove
      · simp [removed]
      · have unmentioned : ¬ item.mentions name := by simp [UpdateLabels.mentions, value, removed]
        simp [removed, agree name unmentioned]

variable {manager : BlockManager}

theorem Stocked.reportsLast (stocked : manager.Stocked) (updates : List UpdateLabels) :
    ∃ result, (manager.updateLabels updates).1 = .ok result ∧ ∀ item ∈ updates,
      (result.filter (·.1 = item.time)).getLast?.map (·.2.toOption) =
        some (((manager.updateLabels updates).2.recordAt item.time).map Record.labels) := by
  obtain ⟨result, ended, reported, stored⟩ := stocked.updatesLabels updates
  refine ⟨result, ended, fun item member => ?_⟩
  have there : item ∈ itemsAt updates item.time := List.mem_filter.mpr ⟨member, by simp⟩
  obtain ⟨last, latest⟩ := Option.isSome_iff_exists.mp (List.getLast?_isSome.mpr (List.ne_nil_of_mem there))
  have filtered := congrArg (fun entries => ((entries.filter (·.1 = item.time)).map Prod.snd).getLast?) reported
  simp only [List.filter_map, List.map_map, List.getLast?_map] at filtered
  rw [stored, latest, Option.elim_some]
  refine filtered.trans ?_
  have same : List.filter ((fun entry : Nat × Option (List Label) => decide (entry.1 = item.time)) ∘ fun item =>
      (item.time, (manager.relabelled item).map Record.labels)) updates = itemsAt updates item.time := rfl
  rw [same, latest]
  rfl

/-- Whatever the items are, the call applies them in turn exactly if they are independent. -/
theorem applies_in_turn_iff (stocked : manager.Stocked) (updates : List UpdateLabels) :
    manager.AppliesInTurn updates ↔ manager.Independent updates := by
  obtain ⟨_, _, _, stored⟩ := stocked.updatesLabels updates
  have step (time : Nat) (record : Record) (last : UpdateLabels) (found : manager.recordAt time = some record)
      (latest : (itemsAt updates time).getLast? = some last) :
      ((manager.updateLabels updates).2.recordAt time).map (fun record => labelValue record.labels) =
        (manager.recordAt time).map (fun record => inTurn (itemsAt updates time) (labelValue record.labels)) ↔
      ∀ name, ¬ last.mentions name →
        inTurn (itemsAt updates time).dropLast (labelValue record.labels) name = labelValue record.labels name := by
    have split : inTurn (itemsAt updates time) (labelValue record.labels) =
        last.applied (inTurn (itemsAt updates time).dropLast (labelValue record.labels)) := by
      nth_rewrite 1 [← List.dropLast_append_getLast? last latest]
      rw [inTurn, List.foldl_append]
      rfl
    rw [stored, latest, Option.elim_some, relabelled_at (List.mem_of_getLast? latest), found, Option.map_some,
      Option.map_some, Option.map_some, Option.some.injEq, updateSingleLabel_value, split, eq_comm, applied_eq_iff]
  constructor
  · intro applies time record last found latest
    exact (step time record last found latest).mp (applies.stored time)
  · intro independent
    refine ⟨fun time => ?_, stocked.reportsLast updates⟩
    cases latest : (itemsAt updates time).getLast? with
    | none =>
      have none : itemsAt updates time = [] := List.getLast?_eq_none_iff.mp latest
      rw [stored, latest, none]
      rfl
    | some last =>
      cases found : manager.recordAt time with
      | none =>
        rw [stored, latest, Option.elim_some, relabelled_at (List.mem_of_getLast? latest), found]
        rfl
      | some record =>
        rw [← found]
        exact (step time record last found latest).mpr (independent time record last found latest)

end Sequence

section Sample

def writesOne : List EntryOperation :=
  [.beginWrite (smallWrite 5 1), .runWriter { blockId := 5, recordTimestamp := 5, offset := 0, contentSize := 1 }
    [.ok (some [7]), .ok none]]

def oneFinished : BlockManager := writesOne.foldl perform smallEntry

theorem oneFinished_stocked : oneFinished.Stocked :=
  stocked_of_history "entry" "bucket" "entry" .filesystem [] (.of_list writesOne _ (by decide +kernel))

def setLabel (time : Nat) (name : String) : UpdateLabels := { time, update := [{ name, value := "1" }], remove := [] }

-- the second item of the record at 5 takes away what the first one has set
def relabelling : List UpdateLabels := [setLabel 5 "a", setLabel 7 "b", { setLabel 5 "c" with remove := ["a"] }]

theorem applies_in_turn_repeated : oneFinished.AppliesInTurn relabelling := by
  refine (applies_in_turn_iff oneFinished_stocked _).mpr fun time record last _ latest name other => ?_
  by_cases repeated : time = 5
  · subst repeated
    have items : itemsAt relabelling 5 = [setLabel 5 "a", { setLabel 5 "c" with remove := ["a"] }] := by decide
    obtain rfl : _ = last := by simpa [items] using latest
    have apart : "a" ≠ name := by
      rintro rfl
      exact other (by simp [UpdateLabels.mentions])
    rw [items]
    simp [inTurn, UpdateLabels.applied, setLabel, labelValue, apart]
  · have single : (itemsAt relabelling time).dropLast = [] := by
      by_cases second : time = 7
      · simp [itemsAt, relabelling, setLabel, second]
      · simp [itemsAt, relabelling, setLabel, Ne.symm repeated, Ne.symm second]
    rw [single]
    rfl

theorem second_item_overwrites :
    (oneFinished.recordAt 5).map Record.state = some .finished ∧
      ¬ oneFinished.AppliesInTurn [setLabel 5 "a", setLabel 5 "b"] := by
  refine ⟨by decide +kernel, fun applies => ?_⟩
  obtain ⟨_, _, _, stored⟩ := oneFinished_stocked.updatesLabels [setLabel 5 "a", setLabel 5 "b"]
  have after : (itemsAt [setLabel 5 "a", setLabel 5 "b"] 5).getLast? = some (setLabel 5 "b") := by decide
  have value := congrArg (fun labels => labels.map (· "a")) (applies.stored 5)
  rw [stored, after, Option.elim_some] at value
  revert value
  decide +kernel

end Sample

end BlockManager

end ReductStore
