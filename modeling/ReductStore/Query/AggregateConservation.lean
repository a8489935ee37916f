import ReductStore.Query.Aggregate

set_option autoImplicit false

namespace ReductStore

namespace Aggregator

section Conservation

variable {aggregator after : Aggregator} {entry : String} {rest : List String}

def Harmless (item : QueryItem) : Prop := ∀ failure, item = .error failure → failure.status = .noContent

def Undisturbed : Event → Prop
  | .deliver _ item => Harmless item
  | .closeOutput => False
  | _ => True

structure Calm (aggregator : Aggregator) : Prop extends Attended aggregator where
  conserved : aggregator.merge.Conserved
  harmless : ∀ entry, ∀ item ∈ (aggregator.channel entry).items, Harmless item
  live : aggregator.outputClosed = false
  unfailed : ∀ failure, aggregator.stage ≠ .fail failure
  going : aggregator.stage ≠ .done → aggregator.output = aggregator.sent.map .ok
  finished : aggregator.stage = .done →
    aggregator.output = aggregator.sent.map .ok ++ [.error HistoricalQuery.noContent] ∧
      ∀ entry ∈ aggregator.entryReceivers, entry ∈ aggregator.completed

theorem calm_new (entryReceivers : List String) (distinct : entryReceivers.Nodup) :
    (new entryReceivers distinct).Calm where
  toAttended := attended_new entryReceivers distinct
  conserved := fun _ => rfl
  harmless := by simp [new]
  live := rfl
  unfailed := by simp [new]
  going := fun _ => rfl
  finished := by simp [new]

theorem Calm.running (attended : aggregator.Attended) (conserved : aggregator.merge.Conserved)
    (harmless : ∀ entry, ∀ item ∈ (aggregator.channel entry).items, Harmless item)
    (live : aggregator.outputClosed = false) (whole : aggregator.output = aggregator.sent.map .ok)
    (unfailed : ∀ failure, aggregator.stage ≠ .fail failure) (unfinished : aggregator.stage ≠ .done) :
    aggregator.Calm :=
  { attended with
    conserved, harmless, live, unfailed
    going := fun _ => whole
    finished := fun done => absurd done unfinished }

theorem Calm.polled (calm : aggregator.Calm) (polling : aggregator.stage = .poll (entry :: rest))
    (step : Polled aggregator entry rest after) : after.Calm ∧ after.stage = .poll rest := by
  have attended := calm.toAttended.polled polling step
  have whole : aggregator.output = aggregator.sent.map .ok := calm.going (by simp [polling])
  have conserved : after.merge.Conserved := by
    rcases step.merge with same | ⟨reader, queue, vacant, queued, same⟩
    · rw [same]
      exact calm.conserved
    · rw [same]
      exact calm.conserved.fetch vacant queued
  -- the items that are left were there before
  have fewer (items : List QueryItem) (item : QueryItem) (front : (aggregator.channel entry).items = item :: items)
      (other : String) (left : QueryItem)
      (inside : left ∈ (Function.update aggregator.channel entry { aggregator.channel entry with items } other).items) :
      Harmless left := by
    by_cases same : other = entry
    · subst same
      refine calm.harmless other left ?_
      rw [front]
      exact List.mem_cons_of_mem _ (by simpa using inside)
    · exact calm.harmless other left (by simpa [same] using inside)
  cases step with
  | settled _ => exact ⟨.running attended conserved calm.harmless calm.live whole (by simp) (by simp), rfl⟩
  | received _ _ front => exact ⟨.running attended conserved (fewer _ _ front) calm.live whole (by simp) (by simp), rfl⟩
  | @refused failure items _ _ front =>
    have quiet : failure.status = .noContent := calm.harmless entry (.error failure) (by simp [front]) failure rfl
    have onwards : (if failure.status ≠ .noContent then .fail failure else .poll rest) = AggregateStage.poll rest :=
      if_neg (not_not.mpr quiet)
    exact ⟨.running attended conserved (fewer _ _ front) calm.live whole (by simp [onwards]) (by simp [onwards]), onwards⟩
  | ended _ _ _ _ => exact ⟨.running attended conserved calm.harmless calm.live whole (by simp) (by simp), rfl⟩
  | idle _ _ _ _ => exact ⟨.running attended conserved calm.harmless calm.live whole (by simp) (by simp), rfl⟩

theorem Calm.chosen (calm : aggregator.Calm) (choosing : aggregator.stage = .choose)
    (step : Chosen aggregator after) : after.Calm := by
  have attended := calm.toAttended.chosen step
  have whole : aggregator.output = aggregator.sent.map .ok := calm.going (by simp [choosing])
  cases step with
  | ended all _ =>
    have notice : aggregator.send (.error HistoricalQuery.noContent) =
        { aggregator with output := aggregator.output ++ [.error HistoricalQuery.noContent] } := by
      rw [send, if_neg (by simp [calm.live])]
    have same := merge_send_error aggregator HistoricalQuery.noContent
    rw [notice] at attended same ⊢
    have kept : Aggregator.sent { aggregator with output := aggregator.output ++ [.error HistoricalQuery.noContent] } =
        aggregator.sent := congrArg Merge.output same
    exact { attended with
      conserved := (same ▸ calm.conserved :)
      harmless := calm.harmless
      live := calm.live
      unfailed := by simp
      going := fun unfinished => absurd rfl unfinished
      finished := fun _ => ⟨by
        rw [show Aggregator.sent { aggregator with
          output := aggregator.output ++ [.error HistoricalQuery.noContent], stage := .done } = aggregator.sent from kept,
          ← whole], fun entry inside => calm.all_ended all inside⟩ }
  | idle _ _ => exact .running attended calm.conserved calm.harmless calm.live whole (by simp) (by simp)
  | @emitted entry reader earliest _ =>
    have conserved := calm.conserved.emit earliest.pending
    rw [← merge_emit] at conserved
    refine .running attended conserved calm.harmless calm.live ?_ (by simp) (by simp)
    simp only [sent, List.filterMap_append, List.map_append]
    rw [← sent, ← whole]
    rfl
  | lost _ closed =>
    rw [calm.live] at closed
    cases closed

theorem Calm.advance (calm : aggregator.Calm) : aggregator.advance.Calm := by
  have attended := calm.toAttended.advance
  rw [Aggregator.advance] at attended ⊢
  cases at_ : aggregator.stage with
  | start =>
    rw [at_] at attended
    exact .running attended calm.conserved calm.harmless calm.live (calm.going (by simp [at_])) (by simp [calm.live])
      (by simp [calm.live])
  | poll rest =>
    rw [at_] at attended
    cases rest with
    | cons entry rest => exact (calm.polled at_ (poll_polled aggregator entry rest)).1
    | nil => exact .running attended calm.conserved calm.harmless calm.live (calm.going (by simp [at_])) (by simp) (by simp)
  | fail failure => exact absurd at_ (calm.unfailed failure)
  | choose => exact calm.chosen at_ (choose_chosen aggregator)
  | done => exact calm

theorem Calm.apply (calm : aggregator.Calm) {event : Event} (permitted : aggregator.Connected event)
    (undisturbed : Undisturbed event) : (aggregator.apply event).Calm := by
  have attended := calm.toAttended.apply permitted
  cases event with
  | deliver entry item =>
    refine { attended with
      conserved := ?_
      harmless := fun other left inside => ?_
      live := calm.live, unfailed := calm.unfailed, going := calm.going, finished := calm.finished }
    · cases item with
      | ok reader =>
        rw [merge_deliver_record]
        exact calm.conserved.deliver entry reader
      | error failure =>
        rw [merge_deliver_error]
        exact calm.conserved
    · by_cases same : other = entry
      · subst same
        have cases : left ∈ (aggregator.channel other).items ∨ left = item := by
          simpa [Aggregator.apply] using inside
        rcases cases with before | rfl
        · exact calm.harmless other left before
        · exact undisturbed
      · exact calm.harmless other left (by simpa [Aggregator.apply, same] using inside)
  | disconnect entry =>
    refine { attended with
      conserved := ?_
      harmless := fun other left inside => calm.harmless other left ?_
      live := calm.live, unfailed := calm.unfailed, going := calm.going, finished := calm.finished }
    · rw [merge_disconnect]
      exact calm.conserved
    · by_cases same : other = entry
      · subst same
        simpa [Aggregator.apply] using inside
      · simpa [Aggregator.apply, same] using inside
  | closeOutput => exact undisturbed.elim
  | advance => exact calm.advance

structure SameSources (aggregator after : Aggregator) : Prop where
  receivers : after.entryReceivers = aggregator.entryReceivers
  delivered : after.delivered = aggregator.delivered
  disconnected : ∀ entry, (after.channel entry).disconnected = (aggregator.channel entry).disconnected

theorem SameSources.trans {middle : Aggregator} (first : SameSources aggregator middle)
    (second : SameSources middle after) : SameSources aggregator after where
  receivers := second.receivers.trans first.receivers
  delivered := second.delivered.trans first.delivered
  disconnected := fun entry => (second.disconnected entry).trans (first.disconnected entry)

theorem sameSources_send (aggregator : Aggregator) (item : Except ReductError (String × RecordReader)) :
    SameSources aggregator (aggregator.send item) := by
  unfold send
  split <;> exact ⟨rfl, rfl, fun _ => rfl⟩

theorem Polled.sameSources (step : Polled aggregator entry rest after) : SameSources aggregator after := by
  have kept (items : List QueryItem) (other : String) :
      (Function.update aggregator.channel entry { aggregator.channel entry with items } other).disconnected =
        (aggregator.channel other).disconnected := by
    by_cases same : other = entry
    · subst same
      simp
    · simp [same]
  cases step with
  | settled _ => exact ⟨rfl, rfl, fun _ => rfl⟩
  | received _ _ _ => exact ⟨rfl, rfl, kept _⟩
  | refused _ _ _ => exact ⟨rfl, rfl, kept _⟩
  | ended _ _ _ _ => exact ⟨rfl, rfl, fun _ => rfl⟩
  | idle _ _ _ _ => exact ⟨rfl, rfl, fun _ => rfl⟩

theorem Chosen.sameSources (step : Chosen aggregator after) : SameSources aggregator after := by
  cases step with
  | ended _ _ => exact ⟨(sameSources_send _ _).1, (sameSources_send _ _).2, (sameSources_send _ _).3⟩
  | idle _ _ => exact ⟨rfl, rfl, fun _ => rfl⟩
  | emitted _ _ => exact ⟨rfl, rfl, fun _ => rfl⟩
  | lost _ _ => exact ⟨rfl, rfl, fun _ => rfl⟩

theorem sameSources_advance (aggregator : Aggregator) : SameSources aggregator aggregator.advance := by
  rw [Aggregator.advance]
  cases aggregator.stage with
  | start => exact ⟨rfl, rfl, fun _ => rfl⟩
  | poll rest =>
    cases rest with
    | cons entry rest => exact (poll_polled aggregator entry rest).sameSources
    | nil => exact ⟨rfl, rfl, fun _ => rfl⟩
  | fail failure => exact ⟨(sameSources_send _ _).1, (sameSources_send _ _).2, (sameSources_send _ _).3⟩
  | choose => exact (choose_chosen aggregator).sameSources
  | done => exact ⟨rfl, rfl, fun _ => rfl⟩

end Conservation

section Progress

variable {aggregator after : Aggregator} {entry : String} {rest : List String}

structure Drains (aggregator : Aggregator) : Prop extends Calm aggregator where
  gone : ∀ entry ∈ aggregator.entryReceivers, (aggregator.channel entry).disconnected = true

theorem Drains.of_calm (drains : aggregator.Drains) (calm : after.Calm) (same : SameSources aggregator after) :
    after.Drains where
  toCalm := calm
  gone := by
    rw [same.receivers]
    intro entry inside
    rw [same.disconnected]
    exact drains.gone entry inside

theorem Drains.advance (drains : aggregator.Drains) : aggregator.advance.Drains :=
  drains.of_calm drains.toCalm.advance (sameSources_advance aggregator)

def weight (aggregator : Aggregator) (entry : String) : Nat :=
  2 * (aggregator.channel entry).items.length + (aggregator.pendingReaders entry).toList.length +
    if entry ∈ aggregator.completed then 0 else 1

def load (aggregator : Aggregator) : Nat := ∑ entry ∈ aggregator.entryReceivers.toFinset, aggregator.weight entry

theorem load_lt (same : after.entryReceivers = aggregator.entryReceivers) (inside : entry ∈ aggregator.entryReceivers)
    (others : ∀ other, other ≠ entry → after.weight other = aggregator.weight other)
    (less : after.weight entry < aggregator.weight entry) : after.load < aggregator.load := by
  rw [load, load, same]
  refine Finset.sum_lt_sum (fun other _ => ?_) ⟨entry, List.mem_toFinset.mpr inside, less⟩
  by_cases equal : other = entry
  · exact equal ▸ less.le
  · exact (others other equal).le

theorem Polled.progress (step : Polled aggregator entry rest after) (inside : entry ∈ aggregator.entryReceivers)
    (gone : (aggregator.channel entry).disconnected = true) :
    after.load < aggregator.load ∨
      ((aggregator.pendingReaders entry).isSome ∨ entry ∈ aggregator.completed) ∧
        after = { aggregator with stage := .poll rest } := by
  cases step with
  | settled known => exact Or.inr ⟨known, rfl⟩
  | received vacant going front =>
    refine Or.inl (load_lt rfl inside (fun other different => ?_) ?_)
    · simp [weight, different]
    · simp [weight, vacant, front]
      omega
  | refused vacant going front =>
    refine Or.inl (load_lt rfl inside (fun other different => ?_) ?_)
    · simp [weight, different]
    · simp [weight, front]
  | ended vacant going nothing _ =>
    refine Or.inl (load_lt rfl inside (fun other different => ?_) ?_)
    · simp [weight, different]
    · simp [weight, going]
  | idle _ _ _ live =>
    rw [gone] at live
    cases live

def LeadsTo (aggregator after : Aggregator) : Prop := ∃ turns, Aggregator.advance^[turns] aggregator = after

theorem LeadsTo.trans {middle : Aggregator} (first : LeadsTo aggregator middle) (second : LeadsTo middle after) :
    LeadsTo aggregator after := by
  obtain ⟨firstTurns, rfl⟩ := first
  obtain ⟨secondTurns, rfl⟩ := second
  exact ⟨secondTurns + firstTurns, Function.iterate_add_apply _ _ _ _⟩

theorem leadsTo_advance (aggregator : Aggregator) : LeadsTo aggregator aggregator.advance := ⟨1, rfl⟩

theorem LeadsTo.sameSources (leads : LeadsTo aggregator after) : SameSources aggregator after := by
  obtain ⟨turns, rfl⟩ := leads
  induction turns with
  | zero => exact ⟨rfl, rfl, fun _ => rfl⟩
  | succ turns ih =>
    rw [Function.iterate_succ_apply']
    exact ih.trans (sameSources_advance _)

theorem Drains.pass (drains : aggregator.Drains) (polling : aggregator.stage = .poll rest) :
    ∃ after, LeadsTo aggregator after ∧ after.Drains ∧ after.stage = .choose ∧
      (after.load < aggregator.load ∨
        (∀ entry ∈ rest, (aggregator.pendingReaders entry).isSome ∨ entry ∈ aggregator.completed) ∧
          after = { aggregator with stage := .choose }) := by
  induction rest generalizing aggregator with
  | nil =>
    have next : aggregator.advance = { aggregator with stage := .choose } := by
      rw [Aggregator.advance, polling]
    refine ⟨_, leadsTo_advance aggregator, drains.advance, ?_, Or.inr ⟨by simp, next⟩⟩
    rw [next]
  | cons entry rest ih =>
    have inside : entry ∈ aggregator.entryReceivers := drains.polling _ polling entry List.mem_cons_self
    have next : aggregator.advance = aggregator.poll entry rest := by
      rw [Aggregator.advance, polling]
    have step : Polled aggregator entry rest aggregator.advance := next ▸ poll_polled aggregator entry rest
    obtain ⟨after, leads, drained, choosing, progress⟩ := ih drains.advance (drains.toCalm.polled polling step).2
    refine ⟨after, (leadsTo_advance aggregator).trans leads, drained, choosing, ?_⟩
    rcases step.progress inside (drains.gone entry inside) with less | ⟨known, same⟩
    · refine Or.inl ?_
      rcases progress with further | ⟨_, rfl⟩
      · exact further.trans less
      · exact less
    · rw [same] at progress
      rcases progress with further | ⟨settled, rfl⟩
      · exact Or.inl further
      · exact Or.inr ⟨List.forall_mem_cons.mpr ⟨known, settled⟩, rfl⟩

theorem Chosen.progress (step : Chosen aggregator after) (drains : aggregator.Drains) :
    after.stage = .done ∨ after.stage = .start ∧ (after.load < aggregator.load ∨ after.load = aggregator.load ∧
      ¬ ∀ entry ∈ aggregator.entryReceivers,
        (aggregator.pendingReaders entry).isSome ∨ entry ∈ aggregator.completed) := by
  cases step with
  | ended _ _ => exact Or.inl rfl
  | idle going nothing =>
    refine Or.inr ⟨rfl, Or.inr ⟨rfl, fun settled => going ?_⟩⟩
    have all : ∀ entry ∈ aggregator.entryReceivers, entry ∈ aggregator.completed := by
      intro entry inside
      exact (settled entry inside).resolve_left (by simp [nothing entry inside])
    have fewer := (List.subperm_of_subset aggregator.distinct all).length_le
    have more := (List.subperm_of_subset drains.once fun other past => (drains.ended other past).1).length_le
    omega
  | @emitted entry reader earliest _ =>
    refine Or.inr ⟨rfl, Or.inl (load_lt rfl earliest.listed (fun other different => ?_) ?_)⟩
    · simp [weight, different]
    · simp [weight, earliest.pending]
  | lost _ closed =>
    rw [drains.live] at closed
    cases closed

theorem Drains.round (drains : aggregator.Drains) (starting : aggregator.stage = .start) :
    ∃ after, LeadsTo aggregator after ∧ after.Drains ∧
      (after.stage = .done ∨ after.stage = .start ∧ after.load < aggregator.load) := by
  have first : aggregator.advance = { aggregator with stage := .poll aggregator.entryReceivers } := by
    rw [Aggregator.advance, starting]
    simp [drains.live]
  have polling : aggregator.advance.stage = .poll aggregator.entryReceivers := by rw [first]
  obtain ⟨middle, leads, drained, choosing, progress⟩ := drains.advance.pass polling
  have last : middle.advance = middle.choose := by rw [Aggregator.advance, choosing]
  refine ⟨middle.advance, ((leadsTo_advance aggregator).trans leads).trans (leadsTo_advance middle), drained.advance, ?_⟩
  rw [first] at progress
  rw [last]
  rcases (choose_chosen middle).progress drained with done | ⟨again, less | ⟨equal, waiting⟩⟩
  · exact Or.inl done
  · refine Or.inr ⟨again, ?_⟩
    rcases progress with further | ⟨_, rfl⟩
    · exact less.trans further
    · exact less
  · refine Or.inr ⟨again, ?_⟩
    rcases progress with further | ⟨settled, rfl⟩
    · exact equal.trans_lt further
    · exact absurd settled waiting

theorem Drains.ends (drains : aggregator.Drains) : ∃ after, LeadsTo aggregator after ∧ after.Drains ∧ after.stage = .done := by
  have started (bound : Nat) : ∀ current : Aggregator, current.Drains → current.stage = .start → current.load ≤ bound →
      ∃ after, LeadsTo current after ∧ after.Drains ∧ after.stage = .done := by
    induction bound with
    | zero =>
      intro current draining starting light
      obtain ⟨after, leads, drained, done | ⟨_, less⟩⟩ := draining.round starting
      · exact ⟨after, leads, drained, done⟩
      · omega
    | succ bound ih =>
      intro current draining starting light
      obtain ⟨after, leads, drained, done | ⟨again, less⟩⟩ := draining.round starting
      · exact ⟨after, leads, drained, done⟩
      · obtain ⟨final, further, finished⟩ := ih after drained again (by omega)
        exact ⟨final, leads.trans further, finished⟩
  have chosen (current : Aggregator) (draining : current.Drains) (choosing : current.stage = .choose) :
      ∃ after, LeadsTo current after ∧ after.Drains ∧ after.stage = .done := by
    have next : current.advance = current.choose := by rw [Aggregator.advance, choosing]
    have progress := (choose_chosen current).progress draining
    rw [← next] at progress
    rcases progress with done | ⟨again, _⟩
    · exact ⟨_, leadsTo_advance current, draining.advance, done⟩
    · obtain ⟨final, further, finished⟩ := started _ _ draining.advance again le_rfl
      exact ⟨final, (leadsTo_advance current).trans further, finished⟩
  cases at_ : aggregator.stage with
  | start => exact started _ aggregator drains at_ le_rfl
  | poll rest =>
    obtain ⟨middle, leads, drained, choosing, _⟩ := drains.pass at_
    obtain ⟨final, further, finished⟩ := chosen middle drained choosing
    exact ⟨final, leads.trans further, finished⟩
  | fail failure => exact absurd at_ (drains.unfailed failure)
  | choose => exact chosen aggregator drains at_
  | done => exact ⟨aggregator, ⟨0, rfl⟩, drains, at_⟩

theorem Drains.all_sent (drains : aggregator.Drains) (done : aggregator.stage = .done) (entry : String) :
    aggregator.sentOf entry = aggregator.delivered entry := by
  have nothing : aggregator.merge.waiting entry = [] := by
    by_cases inside : entry ∈ aggregator.entryReceivers
    · obtain ⟨_, _, empty, vacant⟩ := drains.ended entry ((drains.finished done).2 entry inside)
      simp [Merge.waiting, merge, QueryRx.readers, empty, vacant]
    · obtain ⟨empty, vacant⟩ := drains.listed entry inside
      simp [Merge.waiting, merge, QueryRx.readers, empty, vacant]
  have whole := drains.conserved entry
  rw [nothing, List.append_nil] at whole
  exact whole

theorem Calm.ended_sources (calm : aggregator.Calm) (done : aggregator.stage = .done) : aggregator.Drains where
  toCalm := calm
  gone := fun entry inside => (calm.ended entry ((calm.finished done).2 entry inside)).2.1

theorem LeadsTo.stays (leads : LeadsTo aggregator after) (done : after.stage = .done) :
    ∃ turns, ∀ more, Aggregator.advance^[more + turns] aggregator = after := by
  obtain ⟨turns, rfl⟩ := leads
  refine ⟨turns, fun more => ?_⟩
  have fixed : Function.IsFixedPt Aggregator.advance (Aggregator.advance^[turns] aggregator) := by
    rw [Function.IsFixedPt, Aggregator.advance, done]
  rw [Function.iterate_add_apply]
  exact fixed.iterate more

theorem receivers_apply (aggregator : Aggregator) (event : Event) :
    (aggregator.apply event).entryReceivers = aggregator.entryReceivers := by
  cases event with
  | deliver entry item => rfl
  | disconnect entry => rfl
  | closeOutput => rfl
  | advance => exact (sameSources_advance aggregator).receivers

/-- The records of an entry are sent in the order of their delivery. `NoContent` comes last, when all queries have ended
    and all records are sent, which takes finitely many steps. -/
theorem aggregate_conserves (entryReceivers : List String) (distinct : entryReceivers.Nodup) (aggregator : Aggregator)
    (run : Runs apply (fun current event => current.Connected event ∧ Undisturbed event)
      (new entryReceivers distinct) aggregator) :
    (∀ entry, aggregator.sentOf entry <+: aggregator.delivered entry) ∧
    (aggregator.output = aggregator.sent.map .ok ∨
      aggregator.output = aggregator.sent.map .ok ++ [.error HistoricalQuery.noContent] ∧
        (∀ entry ∈ entryReceivers, (aggregator.channel entry).disconnected = true) ∧
        ∀ entry, aggregator.sentOf entry = aggregator.delivered entry) ∧
    ((∀ entry ∈ entryReceivers, (aggregator.channel entry).disconnected = true) →
      ∃ final turns, (∀ more, advance^[more + turns] aggregator = final) ∧
        final.output = final.sent.map .ok ++ [.error HistoricalQuery.noContent] ∧
        ∀ entry, final.sentOf entry = aggregator.delivered entry) := by
  obtain ⟨calm, receivers⟩ := run.invariant
    (fun current => current.Calm ∧ current.entryReceivers = entryReceivers)
    ⟨calm_new entryReceivers distinct, rfl⟩ (by
      rintro current event ⟨calm, same⟩ ⟨permitted, undisturbed⟩
      exact ⟨calm.apply permitted undisturbed, (receivers_apply current event).trans same⟩)
  subst receivers
  refine ⟨fun entry => ⟨_, calm.conserved entry⟩, ?_, fun gone => ?_⟩
  · by_cases done : aggregator.stage = .done
    · have drains := calm.ended_sources done
      exact Or.inr ⟨(calm.finished done).1, drains.gone, drains.all_sent done⟩
    · exact Or.inl (calm.going done)
  · obtain ⟨final, leads, drained, done⟩ := Drains.ends { toCalm := calm, gone }
    obtain ⟨turns, stays⟩ := leads.stays done
    refine ⟨final, turns, stays, (drained.finished done).1, fun entry => ?_⟩
    rw [drained.all_sent done entry, leads.sameSources.delivered]

instance (item : QueryItem) : Decidable (Harmless item) :=
  match item with
  | .ok _ => isTrue fun _ absent => by cases absent
  | .error failure => decidable_of_iff (failure.status = .noContent)
      ⟨fun quiet other same => by cases same; exact quiet, fun harmless => harmless failure rfl⟩

instance : (event : Event) → Decidable (Undisturbed event)
  | .deliver _ item => inferInstanceAs (Decidable (Harmless item))
  | .closeOutput => isFalse id
  | .disconnect _ | .advance => isTrue trivial

def twoQueries : List Event :=
  [.deliver "a" (.ok (readerAt "a" 1)), .advance, .advance, .deliver "a" (.error HistoricalQuery.noContent),
    .deliver "a" (.ok (readerAt "a" 2)), .disconnect "a", .advance, .disconnect "b"]

theorem aggregate_conserves_two :
    (∀ entry ∈ ["a", "b"], ((twoQueries.foldl apply twoEntries).channel entry).disconnected = true) ∧
      ∃ final turns, (∀ more, advance^[more + turns] (twoQueries.foldl apply twoEntries) = final) ∧
        final.output = final.sent.map .ok ++ [.error HistoricalQuery.noContent] ∧
        ∀ entry, final.sentOf entry = (twoQueries.foldl apply twoEntries).delivered entry := by
  have gone : ∀ entry ∈ ["a", "b"], ((twoQueries.foldl apply twoEntries).channel entry).disconnected = true := by
    decide +kernel
  exact ⟨gone, (aggregate_conserves ["a", "b"] (by decide) _ (.of_list twoQueries _ (by decide +kernel))).2.2 gone⟩

end Progress

end Aggregator

end ReductStore
