import ReductStore.Shared.Transducer
import ReductStore.Storage.Record

set_option autoImplicit false

namespace ReductStore

abbrev ComputedLabels := List (List Char × List Char)

structure ExtRecord (Content : Type) where
  entryName : List Char
  computedLabels : ComputedLabels
  content : Content
  deriving DecidableEq

namespace ExtRecord

variable {Content : Type}

def orInsert (labels : ComputedLabels) (label : List Char × List Char) : ComputedLabels :=
  if labels.any (·.1 = label.1) then labels else labels ++ [label]

def inherit (inherited : ComputedLabels) (record : ExtRecord Content) : ExtRecord Content :=
  { record with computedLabels := inherited.foldl orInsert record.computedLabels }

end ExtRecord

structure Extension (Content : Type) where
  Filter : Type
  Processor : Type
  Commiter : Type
  filter : Filter → ExtRecord Content → Except ReductError (Option (List (ExtRecord Content))) × Filter
  processRecord : Processor → ExtRecord Content →
    Except ReductError (List (Except ReductError (ExtRecord Content))) × Processor
  commitRecord : Commiter → ExtRecord Content → Option (Except ReductError (ExtRecord Content)) × Commiter
  flush : Commiter → Option (Except ReductError (ExtRecord Content)) × Commiter

namespace Extension

variable {Content : Type}

structure State (ext : Extension Content) where
  conditionFilter : ext.Filter
  processor : ext.Processor
  commiter : ext.Commiter

abbrev Result (σ : Type) (Content : Type) := Except ReductError (List (ExtRecord Content)) × σ

def Result.chain {σ : Type} (first : Result σ Content) (next : σ → Result σ Content) : Result σ Content :=
  match first.1 with
  | .error failure => (.error failure, first.2)
  | .ok records => ((next first.2).1.map (records ++ ·), (next first.2).2)

variable (ext : Extension Content)

def commit (state : ext.State) (record : ExtRecord Content) : Result ext.State Content :=
  let committed := ext.commitRecord state.commiter record
  let state := { state with commiter := committed.2 }
  match committed.1 with
  | none => (.ok [], state)
  | some (.error failure) => (.error failure, state)
  | some (.ok result) =>
    let result := result.inherit record.computedLabels
    -- a record with an empty entry name is skipped with a warning
    (.ok (if result.entryName.isEmpty then [] else [result]), state)

def commitAll : ext.State → List (ExtRecord Content) → Result ext.State Content
  | state, [] => (.ok [], state)
  | state, record :: records => (ext.commit state record).chain fun state => commitAll state records

def filterAndCommit (state : ext.State) (record : ExtRecord Content) : Result ext.State Content :=
  let filtered := ext.filter state.conditionFilter record
  let state := { state with conditionFilter := filtered.2 }
  match filtered.1 with
  | .error failure => (.error failure, state)
  | .ok none => (.ok [], state)
  | .ok (some records) => ext.commitAll state records

def consume : ext.State → List (Except ReductError (ExtRecord Content)) → Result ext.State Content
  | state, [] => (.ok [], state)
  | state, .error failure :: _ => (.error failure, state)
  | state, .ok record :: items => (ext.filterAndCommit state record).chain fun state => consume state items

def processInput (state : ext.State) (input : ExtRecord Content) : Result ext.State Content :=
  let processed := ext.processRecord state.processor input
  let state := { state with processor := processed.2 }
  match processed.1 with
  | .error failure => (.error failure, state)
  | .ok items => ext.consume state items

def processPipelineStep : ext.State → List (ExtRecord Content) → Result ext.State Content
  | state, [] => (.ok [], state)
  | state, input :: inputs => (ext.processInput state input).chain fun state => processPipelineStep state inputs

structure Faultless : Prop where
  processes : ∀ processor record, ∃ outputs : List (ExtRecord Content),
    (ext.processRecord processor record).1 = .ok (outputs.map .ok)
  filters : ∀ filter record, ∃ kept, (ext.filter filter record).1 = .ok kept
  commits : ∀ commiter record failure, (ext.commitRecord commiter record).1 ≠ some (.error failure)
  flushes : ∀ commiter failure, (ext.flush commiter).1 ≠ some (.error failure)

variable {ext}

theorem Result.chain_ok {σ : Type} {first : Result σ Content} {next : σ → Result σ Content}
    (fine : ∃ records, first.1 = .ok records) (later : ∃ records, (next first.2).1 = .ok records) :
    ∃ records, (first.chain next).1 = .ok records := by
  obtain ⟨records, first_ok⟩ := fine
  obtain ⟨more, next_ok⟩ := later
  exact ⟨records ++ more, by simp [chain, first_ok, next_ok, Except.map]⟩

namespace Faultless

variable (faultless : ext.Faultless)
include faultless

theorem commit_ok (state : ext.State) (record : ExtRecord Content) :
    ∃ records, (ext.commit state record).1 = .ok records := by
  have fine := faultless.commits state.commiter record
  cases committed : (ext.commitRecord state.commiter record).1 with
  | none => exact ⟨[], by simp [commit, committed]⟩
  | some result =>
    cases result with
    | ok => simp [commit, committed]
    | error failure => exact absurd committed (fine failure)

theorem commitAll_ok (state : ext.State) (records : List (ExtRecord Content)) :
    ∃ outputs, (ext.commitAll state records).1 = .ok outputs := by
  induction records generalizing state with
  | nil => exact ⟨[], rfl⟩
  | cons record records ih => exact Result.chain_ok (faultless.commit_ok state record) (ih _)

theorem filterAndCommit_ok (state : ext.State) (record : ExtRecord Content) :
    ∃ outputs, (ext.filterAndCommit state record).1 = .ok outputs := by
  obtain ⟨kept, filtered⟩ := faultless.filters state.conditionFilter record
  simp only [filterAndCommit, filtered]
  cases kept with
  | none => exact ⟨[], rfl⟩
  | some records => exact faultless.commitAll_ok _ records

theorem consume_ok (state : ext.State) (records : List (ExtRecord Content)) :
    ∃ outputs, (ext.consume state (records.map .ok)).1 = .ok outputs := by
  induction records generalizing state with
  | nil => exact ⟨[], rfl⟩
  | cons record records ih => exact Result.chain_ok (faultless.filterAndCommit_ok state record) (ih _)

theorem processInput_ok (state : ext.State) (input : ExtRecord Content) :
    ∃ outputs, (ext.processInput state input).1 = .ok outputs := by
  obtain ⟨items, processed⟩ := faultless.processes state.processor input
  simp only [processInput, processed]
  exact faultless.consume_ok _ items

end Faultless

variable (ext)

def machine (state : ext.State) : Transducer (ExtRecord Content) where
  State := ext.State
  state := state
  step state input := ((ext.processInput state input).1.toOption.getD [], (ext.processInput state input).2)
  finish state :=
    let flushed := ext.flush state.commiter
    ((flushed.1.bind Except.toOption).toList, { state with commiter := flushed.2 })

variable {ext}

theorem Faultless.process_eq_feed (faultless : ext.Faultless) (state : ext.State) (inputs : List (ExtRecord Content)) :
    ∃ after, ext.processPipelineStep state inputs = (.ok ((ext.machine state).feed inputs).1, after) ∧
      ((ext.machine state).feed inputs).2 = ext.machine after := by
  induction inputs generalizing state with
  | nil => exact ⟨state, rfl, rfl⟩
  | cons input inputs ih =>
    obtain ⟨outputs, processed⟩ := faultless.processInput_ok state input
    obtain ⟨after, later, same⟩ := ih (ext.processInput state input).2
    have answer : (ext.machine state).step (ext.machine state).state input = (outputs, (ext.processInput state input).2) := by
      simp [machine, processed, Except.toOption]
    refine ⟨after, ?_, ?_⟩
    · rw [processPipelineStep, Result.chain, processed, later, Transducer.feed, answer]
      rfl
    · rw [Transducer.feed, answer]
      exact same

end Extension

structure PipelineStep (Content : Type) where
  ext : Extension Content
  state : ext.State

namespace PipelineStep

variable {Content : Type}

def process (step : PipelineStep Content) (inputs : List (ExtRecord Content)) :
    Except ReductError (List (ExtRecord Content)) × PipelineStep Content :=
  let processed := step.ext.processPipelineStep step.state inputs
  (processed.1, { step with state := processed.2 })

def flush (step : PipelineStep Content) :
    Option (Except ReductError (ExtRecord Content)) × PipelineStep Content :=
  let flushed := step.ext.flush step.state.commiter
  (flushed.1, { step with state := { step.state with commiter := flushed.2 } })

def machine (step : PipelineStep Content) : Transducer (ExtRecord Content) := step.ext.machine step.state

end PipelineStep

namespace ExtRepository

variable {Content : Type}

abbrev Processed (Content : Type) := Except ReductError (List (ExtRecord Content)) × List (PipelineStep Content)

def processPipeline : List (PipelineStep Content) → List (ExtRecord Content) → Processed Content
  | [], inputs => (.ok inputs, [])
  | step :: steps, inputs =>
    match step.process inputs with
    | (.error failure, step) => (.error failure, step :: steps)
    | (.ok outputs, step) =>
      let later := processPipeline steps outputs
      (later.1, step :: later.2)

theorem length_processPipeline (steps : List (PipelineStep Content)) (inputs : List (ExtRecord Content)) :
    (processPipeline steps inputs).2.length = steps.length := by
  induction steps generalizing inputs with
  | nil => rfl
  | cons step steps ih =>
    unfold processPipeline
    split
    · rfl
    · simp [ih]

def flushPipeline : List (PipelineStep Content) → Processed Content
  | [] => (.ok [], [])
  | step :: steps =>
    match step.flush with
    | (none, step) =>
      let later := flushPipeline steps
      (later.1, step :: later.2)
    | (some (.error failure), step) => (.error failure, step :: steps)
    | (some (.ok record), step) =>
      let downstream := processPipeline steps [record]
      match downstream.1 with
      | .error failure => (.error failure, step :: downstream.2)
      | .ok records =>
        let later := flushPipeline downstream.2
        (later.1.map (records ++ ·), step :: later.2)
termination_by steps => steps.length
decreasing_by
  · simp
  · simp [length_processPipeline]

structure QueryContext (Content : Type) where
  steps : Option (List (PipelineStep Content))
  queryRx : List (Except ReductError (ExtRecord Content))

abbrev Fetched (Content : Type) := Option (List (Except ReductError (ExtRecord Content))) × QueryContext Content

def isFinished : ReductError := { status := .noContent, message := "No content" }

def fetchAndProcessRecord (query : QueryContext Content) : Fetched Content :=
  match query.queryRx, query.steps with
  | [], _ => (some [.error isFinished], query)
  | item :: queryRx, none => (some [item], { query with queryRx })
  | .error failure :: queryRx, some steps =>
    if failure.status = .noContent then
      match flushPipeline steps with
      | (.error flushFailure, steps) => (some [.error flushFailure, .error failure], ⟨some steps, queryRx⟩)
      | (.ok records, steps) => (some (records.map .ok ++ [.error failure]), ⟨some steps, queryRx⟩)
    else (some [.error failure], { query with queryRx })
  | .ok record :: queryRx, some steps =>
    match processPipeline steps [record] with
    | (.error failure, steps) => (some [.error failure], ⟨some steps, queryRx⟩)
    | (.ok [], steps) => (none, ⟨some steps, queryRx⟩)
    | (.ok records, steps) => (some (records.map .ok), ⟨some steps, queryRx⟩)

def fetchRecords : Nat → QueryContext Content → List (ExtRecord Content)
  | 0, _ => []
  | count + 1, query =>
    let fetched := fetchAndProcessRecord query
    (fetched.1.getD []).filterMap Except.toOption ++ fetchRecords count fetched.2

def Faultless (steps : List (PipelineStep Content)) : Prop := ∀ step ∈ steps, step.ext.Faultless

abbrev machines (steps : List (PipelineStep Content)) : List (Transducer (ExtRecord Content)) :=
  steps.map PipelineStep.machine

theorem process_eq_push {steps : List (PipelineStep Content)} (faultless : Faultless steps)
    (inputs : List (ExtRecord Content)) :
    ∃ after, processPipeline steps inputs = (.ok (Transducer.push (machines steps) inputs).1, after) ∧
      (Transducer.push (machines steps) inputs).2 = machines after ∧ Faultless after := by
  induction steps generalizing inputs with
  | nil => exact ⟨[], rfl, rfl, faultless⟩
  | cons step steps ih =>
    obtain ⟨first, rest⟩ := List.forall_mem_cons.mp faultless
    obtain ⟨state, processed, fed⟩ := first.process_eq_feed step.state inputs
    obtain ⟨after, later, pushed, fine⟩ := ih rest (step.machine.feed inputs).1
    refine ⟨{ step with state } :: after, ?_, ?_, List.forall_mem_cons.mpr ⟨first, fine⟩⟩
    · rw [processPipeline, PipelineStep.process, processed]
      simp only [Transducer.push, List.map_cons]
      rw [show (step.ext.machine step.state) = step.machine from rfl, later]
    · simp only [Transducer.push, List.map_cons, pushed]
      rw [PipelineStep.machine, fed]
      rfl

theorem flush_eq_drain {steps : List (PipelineStep Content)} (faultless : Faultless steps) :
    (flushPipeline steps).1 = .ok (Transducer.drain (machines steps)) := by
  match steps with
  | [] => simp [flushPipeline, Transducer.drain]
  | step :: steps =>
    obtain ⟨first, rest⟩ := List.forall_mem_cons.mp faultless
    have fine := first.flushes step.state.commiter
    rw [flushPipeline, machines, List.map_cons, Transducer.drain]
    cases flushed : (step.ext.flush step.state.commiter).1 with
    | none =>
      have finish : (step.machine.finish step.machine.state).1 = [] := by
        simp [PipelineStep.machine, Extension.machine, flushed]
      simp only [PipelineStep.flush, flushed, finish, Transducer.push_nil, List.nil_append]
      exact flush_eq_drain rest
    | some result =>
      cases result with
      | error failure => exact absurd flushed (fine failure)
      | ok record =>
        have finish : (step.machine.finish step.machine.state).1 = [record] := by
          simp [PipelineStep.machine, Extension.machine, flushed, Except.toOption]
        obtain ⟨after, downstream, pushed, faultless'⟩ := process_eq_push rest [record]
        have length : after.length = steps.length := by
          simpa [downstream] using length_processPipeline steps [record]
        simp only [PipelineStep.flush, flushed, finish, downstream, pushed]
        rw [flush_eq_drain faultless']
        rfl
termination_by steps.length

theorem fetchRecords_finished (count : Nat) (steps : Option (List (PipelineStep Content))) :
    fetchRecords count ⟨steps, []⟩ = [] := by
  induction count with
  | zero => rfl
  | succ count ih => simp [fetchRecords, fetchAndProcessRecord, ih, Except.toOption]

theorem filterMap_ok (records : List (ExtRecord Content)) :
    (records.map (Except.ok : _ → Except ReductError _)).filterMap Except.toOption = records := by
  rw [List.filterMap_map]
  exact List.filterMap_some

theorem fetchRecords_end {steps : List (PipelineStep Content)} (faultless : Faultless steps)
    {finished : ReductError} (isEnd : finished.status = .noContent) (count : Nat) :
    fetchRecords (count + 1) ⟨some steps, [.error finished]⟩ = Transducer.drain (machines steps) := by
  have drained := flush_eq_drain faultless
  simp only [fetchRecords, fetchAndProcessRecord, if_pos isEnd]
  generalize flushPipeline steps = result at drained
  obtain ⟨flushed, after⟩ := result
  obtain rfl : flushed = .ok _ := drained
  simp only [Option.getD_some, List.filterMap_append, filterMap_ok, fetchRecords_finished]
  simp [Except.toOption]

theorem fetchRecords_record {steps : List (PipelineStep Content)} (faultless : Faultless steps)
    (record : ExtRecord Content) (queryRx : List (Except ReductError (ExtRecord Content))) (count : Nat) :
    ∃ after, Faultless after ∧ (Transducer.push (machines steps) [record]).2 = machines after ∧
      fetchRecords (count + 1) ⟨some steps, .ok record :: queryRx⟩ =
        (Transducer.push (machines steps) [record]).1 ++ fetchRecords count ⟨some after, queryRx⟩ := by
  obtain ⟨after, processed, pushed, fine⟩ := process_eq_push faultless [record]
  refine ⟨after, fine, pushed, ?_⟩
  simp only [fetchRecords, fetchAndProcessRecord, processed]
  cases (Transducer.push (machines steps) [record]).1 with
  | nil => rfl
  | cons output outputs => simp only [Option.getD_some, filterMap_ok]

theorem fetchRecords_eq {steps : List (PipelineStep Content)} (faultless : Faultless steps)
    {finished : ReductError} (isEnd : finished.status = .noContent) (records : List (ExtRecord Content))
    {count : Nat} (enough : records.length < count) :
    fetchRecords count ⟨some steps, records.map .ok ++ [.error finished]⟩ =
      (Transducer.push (machines steps) records).1 ++ Transducer.drain (Transducer.push (machines steps) records).2 := by
  induction records generalizing steps count with
  | nil =>
    obtain ⟨count, rfl⟩ := Nat.exists_eq_succ_of_ne_zero (Nat.ne_of_gt enough)
    simpa [Transducer.push_nil] using fetchRecords_end faultless isEnd count
  | cons record records ih =>
    obtain ⟨count, rfl⟩ := Nat.exists_eq_succ_of_ne_zero (Nat.ne_of_gt (Nat.lt_of_le_of_lt (Nat.zero_le _) enough))
    obtain ⟨after, fine, pushed, fetched⟩ :=
      fetchRecords_record faultless record (records.map .ok ++ [.error finished]) count
    have later := ih fine (Nat.lt_of_succ_lt_succ enough)
    rw [List.map_cons, List.cons_append, fetched, later, ← List.singleton_append (l := records),
      Transducer.push_append, pushed, List.append_assoc]

def fetchStaged (finished : ReductError) (steps : List (PipelineStep Content)) (records : List (ExtRecord Content)) :
    List (ExtRecord Content) :=
  steps.foldl (fun inputs step =>
    fetchRecords (inputs.length + 1) ⟨some [step], inputs.map .ok ++ [.error finished]⟩) records

theorem fetchStaged_eq {steps : List (PipelineStep Content)} (faultless : Faultless steps) {finished : ReductError}
    (isEnd : finished.status = .noContent) (records : List (ExtRecord Content)) :
    fetchStaged finished steps records = Transducer.staged (machines steps) records := by
  induction steps generalizing records with
  | nil => rfl
  | cons step steps ih =>
    obtain ⟨first, rest⟩ := List.forall_mem_cons.mp faultless
    have alone : Faultless [step] := List.forall_mem_singleton.mpr first
    have one := fetchRecords_eq alone isEnd records (Nat.lt_succ_self records.length)
    rw [Transducer.push_drain] at one
    rw [fetchStaged, List.foldl_cons, one, ← fetchStaged, ih rest]
    rfl

/-- A pipeline gives the records that its steps give one after the other, each on all that the one before it gives
and flushed once behind its last input. -/
theorem fetch_eq_staged (steps : List (PipelineStep Content)) (faultless : Faultless steps)
    (records : List (ExtRecord Content)) (finished : ReductError) (isEnd : finished.status = .noContent)
    (count : Nat) (enough : records.length < count) :
    fetchRecords count ⟨some steps, records.map .ok ++ [.error finished]⟩ = fetchStaged finished steps records ∧
      fetchStaged finished steps records = Transducer.staged (machines steps) records := by
  have staged := fetchStaged_eq faultless isEnd records
  refine ⟨?_, staged⟩
  rw [fetchRecords_eq faultless isEnd records enough, Transducer.push_drain, staged]

def pairing : Extension Nat where
  Filter := Unit
  Processor := Unit
  Commiter := Option Nat
  filter _ record := (.ok (some [record]), ())
  processRecord _ record := (.ok [.ok record], ())
  commitRecord
    | none, record => (none, some record.content)
    | some first, record => (some (.ok { record with content := first + record.content }), none)
  flush
    | none => (none, none)
    | some first => (some (.ok ⟨['a'], [], first⟩), none)

theorem pairing_faultless : pairing.Faultless where
  processes _ record := ⟨[record], rfl⟩
  filters _ record := ⟨some [record], rfl⟩
  commits commiter record failure := by cases commiter <;> simp [pairing]
  flushes commiter failure := by cases commiter <;> simp [pairing]

def pairs : PipelineStep Nat := ⟨pairing, ⟨(), (), none⟩⟩

def threeRecords : List (ExtRecord Nat) := [⟨['a'], [], 1⟩, ⟨['a'], [], 2⟩, ⟨['a'], [], 3⟩]

theorem fetch_eq_staged_pairs :
    fetchRecords 4 ⟨some [pairs, pairs], threeRecords.map .ok ++ [.error isFinished]⟩ = [⟨['a'], [], 6⟩] := by
  have faultless : Faultless [pairs, pairs] := by simpa [Faultless, pairs] using pairing_faultless
  obtain ⟨fetched, staged⟩ := fetch_eq_staged [pairs, pairs] faultless threeRecords isFinished rfl 4 (by decide)
  rw [fetched, staged]
  decide

end ExtRepository

end ReductStore
