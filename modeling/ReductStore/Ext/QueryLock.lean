import Mathlib
import ReductStore.Shared.Machine

set_option autoImplicit false

namespace ReductStore.QueryLock

section Repository

variable {Item : Type}

structure Receiver (Item : Type) where
  items : List Item
  closed : Bool
  deriving DecidableEq

inductive Holding (Item : Type) where
  | receiving
  | processing (item : Item)
  deriving DecidableEq

inductive Outcome (Item : Type) where
  | answered (item : Item)
  | noContent
  | lockTimeout
  deriving DecidableEq

structure Repository (Item : Type) where
  registered : Nat → Bool
  receivers : Nat → Receiver Item
  holder : Option (Nat × Holding Item)
  queue : List Nat
  outcomes : Nat → Option (Outcome Item)

def Repository.start (registered : Nat → Bool) (receivers : Nat → Receiver Item) : Repository Item :=
  { registered, receivers, holder := none, queue := [], outcomes := fun _ => none }

inductive LockStep (Item : Type) where
  | begin (call : Nat)
  | acquire
  | lockTimeout (call : Nat)
  | receive
  | finish
  | cancel (call : Nat)
  | deliver (query : Nat) (item : Item)
  | close (query : Nat)
  | register (query : Nat) (extended : Bool)

def Repository.answer (state : Repository Item) (call : Nat) (outcome : Outcome Item) : Repository Item :=
  { state with holder := none, outcomes := Function.update state.outcomes call (some outcome) }

variable (query : Nat → Nat)

def Repository.receive (state : Repository Item) (call : Nat) : Repository Item :=
  match state.receivers (query call) with
  | ⟨item :: items, closed⟩ =>
    let state := { state with receivers := Function.update state.receivers (query call) ⟨items, closed⟩ }
    if state.registered (query call) then { state with holder := some (call, .processing item) }
    else state.answer call (.answered item)
  | ⟨[], true⟩ => state.answer call .noContent
  | ⟨[], false⟩ => state

def Repository.apply (state : Repository Item) : LockStep Item → Repository Item
  | .begin call =>
    if call ∈ state.queue ∨ state.holder.any (·.1 = call) ∨ state.outcomes call ≠ none then state
    else { state with queue := state.queue ++ [call] }
  | .acquire =>
    match state.holder, state.queue with
    | none, call :: queue => { state with holder := some (call, .receiving), queue }
    | _, _ => state
  | .lockTimeout call =>
    if call ∈ state.queue then
      { state with
        queue := state.queue.filter (· ≠ call)
        outcomes := Function.update state.outcomes call (some .lockTimeout) }
    else state
  | .receive =>
    match state.holder with
    | some (call, .receiving) => state.receive query call
    | _ => state
  | .finish =>
    match state.holder with
    | some (call, .processing item) => state.answer call (.answered item)
    | _ => state
  | .cancel call =>
    { state with
      holder := state.holder.filter (·.1 ≠ call)
      queue := state.queue.filter (· ≠ call) }
  | .deliver target item =>
    { state with
      receivers := Function.update state.receivers target
        { state.receivers target with items := (state.receivers target).items ++ [item] } }
  | .close target =>
    { state with receivers := Function.update state.receivers target { state.receivers target with closed := true } }
  | .register target extended =>
    if state.holder = none ∧ state.queue = [] then
      { state with registered := Function.update state.registered target extended }
    else state

def Repository.demand (state : Repository Item) (target call : Nat) : Nat :=
  (match state.holder with
    | some (holder, .receiving) => if query holder = target then 1 else 0
    | _ => 0) +
  (state.queue.takeWhile (· ≠ call)).countP (query · = target)

def Undisturbed (target call : Nat) (_ : Repository Item) : LockStep Item → Prop
  | .lockTimeout other | .cancel other => other ≠ call ∧ query other ≠ target
  | .deliver receiver _ => receiver ≠ target ∧ receiver ≠ query call
  | .close receiver => receiver ≠ target
  | _ => True

end Repository

section Queue

variable {query : Nat → Nat} {call other target : Nat} {queue : List Nat}

theorem takeWhile_append_self (member : call ∈ queue) (more : List Nat) :
    (queue ++ more).takeWhile (· ≠ call) = queue.takeWhile (· ≠ call) := by
  induction queue with
  | nil => cases member
  | cons first queue ih =>
    by_cases same : first = call
    · simp [same]
    · have rest : call ∈ queue := (List.mem_cons.mp member).resolve_left (Ne.symm same)
      simpa [same] using ih rest

theorem countP_takeWhile_filter (apart : other ≠ call) (foreign : query other ≠ target) :
    ((queue.filter (· ≠ other)).takeWhile (· ≠ call)).countP (query · = target) =
      (queue.takeWhile (· ≠ call)).countP (query · = target) := by
  induction queue with
  | nil => rfl
  | cons first queue ih =>
    by_cases left : first = other
    · subst left
      simpa [apart, foreign] using ih
    · by_cases same : first = call
      · simp [same, apart.symm]
      · simp only [List.filter_cons, left, ne_eq, not_false_eq_true, decide_true, if_true, List.takeWhile_cons, same,
          List.countP_cons]
        rw [← ih]

end Queue

section Blocking

variable {Item : Type} {query : Nat → Nat} {state : Repository Item} {target call : Nat}

structure Consistent (state : Repository Item) : Prop where
  apart : ∀ call holding, state.holder = some (call, holding) → call ∉ state.queue
  distinct : state.queue.Nodup
  pending : ∀ call ∈ state.queue, state.outcomes call = none

structure Stuck (query : Nat → Nat) (target call : Nat) (state : Repository Item) : Prop where
  waiting : call ∈ state.queue
  opened : (state.receivers target).closed = false
  short : (state.receivers target).items.length < state.demand query target call

theorem Consistent.answer (consistent : Consistent state) {holder : Nat} {holding : Holding Item}
    (held : state.holder = some (holder, holding)) (outcome : Outcome Item) :
    Consistent (state.answer holder outcome) := by
  refine ⟨fun _ _ impossible => (nomatch impossible), consistent.distinct, fun other member => ?_⟩
  have differs : other ≠ holder := fun same => consistent.apart _ _ held (same ▸ member)
  exact (Function.update_of_ne differs _ _).trans (consistent.pending other member)

theorem Consistent.apply (consistent : Consistent state) (step : LockStep Item) : Consistent (state.apply query step) := by
  cases step with
  | begin other =>
    rw [Repository.apply]
    split_ifs with known
    · exact consistent
    · push Not at known
      refine ⟨fun holder holding held member => ?_, ?_, fun waiting member => ?_⟩
      · rcases List.mem_append.mp member with before | new
        · exact consistent.apart _ _ held before
        · obtain rfl := List.mem_singleton.mp new
          have free := known.2.1
          rw [show state.holder = some (holder, holding) from held] at free
          simp at free
      · rw [← List.concat_eq_append, List.nodup_concat]
        exact ⟨known.1, consistent.distinct⟩
      · rcases List.mem_append.mp member with before | new
        · exact consistent.pending _ before
        · obtain rfl := List.mem_singleton.mp new
          exact known.2.2
  | acquire =>
    rw [Repository.apply]
    split
    next first queue _ waiting =>
      have distinct := consistent.distinct
      rw [waiting, List.nodup_cons] at distinct
      refine ⟨?_, distinct.2, fun other member => consistent.pending other (waiting ▸ List.mem_cons_of_mem _ member)⟩
      rintro _ _ ⟨⟩
      exact distinct.1
    next => exact consistent
  | lockTimeout other =>
    rw [Repository.apply]
    split_ifs with known
    · refine ⟨fun holder holding held member => consistent.apart _ _ held (List.mem_of_mem_filter member),
        consistent.distinct.filter _, fun waiting member => ?_⟩
      obtain ⟨before, differs⟩ := List.mem_filter.mp member
      exact (Function.update_of_ne (of_decide_eq_true differs) _ _).trans (consistent.pending _ before)
    · exact consistent
  | receive =>
    rw [Repository.apply]
    split
    next holder held =>
      rw [Repository.receive]
      split
      next item items closed found =>
        dsimp only
        split_ifs
        · refine ⟨?_, consistent.distinct, consistent.pending⟩
          rintro _ _ ⟨⟩
          exact consistent.apart _ _ held
        · have moved : Consistent { state with
              receivers := Function.update state.receivers (query holder) ⟨items, closed⟩ } :=
            ⟨consistent.apart, consistent.distinct, consistent.pending⟩
          exact moved.answer held _
      next => exact consistent.answer held _
      next => exact consistent
    next => exact consistent
  | finish =>
    rw [Repository.apply]
    split
    next holder item held => exact consistent.answer held _
    next => exact consistent
  | cancel other =>
    refine ⟨fun holder holding held member => ?_, consistent.distinct.filter _,
      fun waiting member => consistent.pending _ (List.mem_of_mem_filter member)⟩
    exact consistent.apart holder holding (Option.filter_eq_some_iff.mp held).1 (List.mem_of_mem_filter member)
  | deliver receiver item => exact ⟨consistent.apart, consistent.distinct, consistent.pending⟩
  | close receiver => exact ⟨consistent.apart, consistent.distinct, consistent.pending⟩
  | register receiver extended =>
    rw [Repository.apply]
    split_ifs
    · exact ⟨consistent.apart, consistent.distinct, consistent.pending⟩
    · exact consistent

theorem Consistent.of_run {registered : Nat → Bool} {receivers : Nat → Receiver Item}
    (run : Runs (Repository.apply query) (fun _ _ => True) (.start registered receivers) state) : Consistent state := by
  refine run.invariant Consistent ⟨fun _ _ impossible => (nomatch impossible), List.nodup_nil, fun _ member => ?_⟩
    fun _ step consistent _ => consistent.apply step
  cases member

theorem Stuck.receive (stuck : Stuck query target call state) {holder : Nat}
    (held : state.holder = some (holder, .receiving)) : Stuck query target call (state.receive query holder) := by
  have short := stuck.short
  rw [Repository.demand, held] at short
  rw [Repository.receive]
  split
  next item items closed found =>
    -- the holder needs nothing more, whatever it does with the item
    have after (next : Repository Item) (queue : next.queue = state.queue)
        (taken : next.receivers = Function.update state.receivers (query holder) ⟨items, closed⟩)
        (idle : ∀ waiting, next.holder ≠ some (waiting, .receiving)) : Stuck query target call next := by
      have none_ : next.demand query target call = (state.queue.takeWhile (· ≠ call)).countP (query · = target) := by
        rw [Repository.demand, queue]
        cases shown : next.holder with
        | none => exact Nat.zero_add _
        | some pair =>
          obtain ⟨waiting, _ | item⟩ := pair
          · exact absurd shown (idle waiting)
          · exact Nat.zero_add _
      refine ⟨queue ▸ stuck.waiting, ?_, ?_⟩
      · rw [taken]
        by_cases same : query holder = target
        · subst same
          rw [Function.update_self]
          have opened := stuck.opened
          rwa [found] at opened
        · rw [Function.update_of_ne (Ne.symm same)]
          exact stuck.opened
      · rw [none_, taken]
        by_cases same : query holder = target
        · subst same
          rw [Function.update_self]
          rw [found, List.length_cons] at short
          simp only [if_true] at short
          simp only
          omega
        · rw [Function.update_of_ne (Ne.symm same)]
          simp only [same, if_false] at short
          omega
    dsimp only
    split_ifs
    · exact after _ rfl rfl (by rintro _ ⟨⟩)
    · exact after _ rfl rfl (by rintro _ ⟨⟩)
  next found =>
    have foreign : query holder ≠ target := by
      rintro rfl
      have opened := stuck.opened
      rw [found] at opened
      cases opened
    refine ⟨stuck.waiting, stuck.opened, ?_⟩
    simp only [foreign, if_false] at short
    exact short
  next => exact stuck

theorem Stuck.apply (stuck : Stuck query target call state) {step : LockStep Item}
    (allowed : Undisturbed query target call state step) : Stuck query target call (state.apply query step) := by
  cases step with
  | begin other =>
    rw [Repository.apply]
    split_ifs
    · exact stuck
    · refine ⟨List.mem_append_left _ stuck.waiting, stuck.opened, ?_⟩
      rw [Repository.demand, takeWhile_append_self stuck.waiting]
      exact stuck.short
  | acquire =>
    rw [Repository.apply]
    split
    next first queue free waiting =>
      have short := stuck.short
      rw [Repository.demand, free, waiting] at short
      by_cases same : first = call
      · simp [same] at short
      · have rest := stuck.waiting
        rw [waiting] at rest
        refine ⟨(List.mem_cons.mp rest).resolve_left (Ne.symm same), stuck.opened, ?_⟩
        rw [Repository.demand]
        simp only [List.takeWhile_cons, ne_eq, same, not_false_eq_true, decide_true, if_true, List.countP_cons,
          decide_eq_true_eq] at short ⊢
        omega
    next => exact stuck
  | lockTimeout other =>
    rw [Repository.apply]
    split_ifs
    · refine ⟨List.mem_filter.mpr ⟨stuck.waiting, decide_eq_true allowed.1.symm⟩, stuck.opened, ?_⟩
      rw [Repository.demand, countP_takeWhile_filter allowed.1 allowed.2]
      exact stuck.short
    · exact stuck
  | receive =>
    rw [Repository.apply]
    split
    next holder held => exact stuck.receive held
    next => exact stuck
  | finish =>
    rw [Repository.apply]
    split
    next holder item held =>
      refine ⟨stuck.waiting, stuck.opened, ?_⟩
      have short := stuck.short
      rw [Repository.demand, held] at short
      exact short
    next => exact stuck
  | cancel other =>
    refine ⟨List.mem_filter.mpr ⟨stuck.waiting, decide_eq_true allowed.1.symm⟩, stuck.opened, ?_⟩
    have short := stuck.short
    rw [Repository.demand] at short
    rw [Repository.apply, Repository.demand, countP_takeWhile_filter allowed.1 allowed.2]
    refine lt_of_lt_of_le short (Nat.add_le_add_right ?_ _)
    cases held : state.holder with
    | none => exact Nat.zero_le _
    | some pair =>
      obtain ⟨holder, _ | item⟩ := pair
      · by_cases same : holder = other
        · simp [same, allowed.2]
        · simp [Option.filter, same]
      · exact Nat.zero_le _
  | deliver receiver item =>
    have same : (state.apply query (.deliver receiver item)).receivers target = state.receivers target :=
      Function.update_of_ne allowed.1.symm _ _
    exact ⟨stuck.waiting, same ▸ stuck.opened, same ▸ stuck.short⟩
  | close receiver =>
    have same : (state.apply query (.close receiver : LockStep Item)).receivers target = state.receivers target :=
      Function.update_of_ne (Ne.symm allowed) _ _
    exact ⟨stuck.waiting, same ▸ stuck.opened, same ▸ stuck.short⟩
  | register receiver extended =>
    rw [Repository.apply]
    split_ifs
    · exact ⟨stuck.waiting, stuck.opened, stuck.short⟩
    · exact stuck

theorem Stuck.runs (stuck : Stuck query target call state) (consistent : Consistent state) {after : Repository Item}
    (run : Runs (Repository.apply query) (Undisturbed query target call) state after) : after.outcomes call = none := by
  have kept : Stuck query target call after ∧ Consistent after := by
    refine run.invariant (fun state => Stuck query target call state ∧ Consistent state) ⟨stuck, consistent⟩ ?_
    rintro current step ⟨stuck, consistent⟩ allowed
    exact ⟨stuck.apply allowed, consistent.apply step⟩
  exact kept.2.pending call kept.1.waiting

end Blocking

section Progress

variable {Item : Type} {query : Nat → Nat} {state : Repository Item} {target call : Nat}

structure Served (query : Nat → Nat) (holder : Nat) (state after : Repository Item) : Prop where
  free : after.holder = none
  queue : after.queue = state.queue
  closed : ∀ receiver, (after.receivers receiver).closed = (state.receivers receiver).closed
  items : ∀ receiver, (after.receivers receiver).items.length =
    (state.receivers receiver).items.length - if query holder = receiver then 1 else 0
  answered : (state.receivers (query holder)).items ≠ [] → ∃ item, after.outcomes holder = some (.answered item)

theorem served (target call : Nat) {holder : Nat} (held : state.holder = some (holder, .receiving))
    (ready : (state.receivers (query holder)).items ≠ [] ∨ (state.receivers (query holder)).closed = true) :
    ∃ after, Runs (Repository.apply query) (Undisturbed query target call) state after ∧ Served query holder state after := by
  have first : Runs (Repository.apply query) (Undisturbed query target call) state (state.receive query holder) :=
    .one .receive trivial (by rw [Repository.apply, held])
  rw [Repository.receive] at first
  cases found : state.receivers (query holder) with
  | mk items closed =>
    rw [found] at ready
    cases items with
    | nil =>
      obtain rfl : closed = true := ready.resolve_left fun filled => filled rfl
      simp only [found] at first
      refine ⟨_, first, rfl, rfl, fun _ => rfl, fun receiver => ?_, fun filled => absurd rfl (found ▸ filled)⟩
      show (state.receivers receiver).items.length = _
      split_ifs with same
      · rw [← same, found]
        rfl
      · rfl
    | cons item items =>
      simp only [found] at first
      have taken (receiver : Nat) : Function.update state.receivers (query holder) ⟨items, closed⟩ receiver =
          if query holder = receiver then ⟨items, closed⟩ else state.receivers receiver := by
        by_cases same : query holder = receiver
        · rw [if_pos same, ← same, Function.update_self]
        · rw [if_neg same, Function.update_of_ne (Ne.symm same)]
      have result : Served query holder state (Repository.answer { state with
          receivers := Function.update state.receivers (query holder) ⟨items, closed⟩ } holder (.answered item)) := by
        refine ⟨rfl, rfl, fun receiver => ?_, fun receiver => ?_, fun _ => ⟨item, Function.update_self _ _ _⟩⟩
        · show (Function.update state.receivers (query holder) ⟨items, closed⟩ receiver).closed = _
          rw [taken]
          split_ifs with same
          · rw [← same, found]
          · rfl
        · show (Function.update state.receivers (query holder) ⟨items, closed⟩ receiver).items.length = _
          rw [taken]
          split_ifs with same
          · rw [← same, found]
            rfl
          · rfl
      split_ifs at first with extended
      · exact ⟨_, first.trans (.one .finish trivial rfl), result⟩
      · exact ⟨_, first, result⟩

structure Clear (query : Nat → Nat) (target call : Nat) (state : Repository Item) : Prop where
  enough : (state.receivers target).closed = true ∨
    state.demand query target call ≤ (state.receivers target).items.length
  own : state.demand query (query call) call < (state.receivers (query call)).items.length

theorem demand_free (free : state.holder = none) (receiver : Nat) :
    state.demand query receiver call = (state.queue.takeWhile (· ≠ call)).countP (query · = receiver) := by
  rw [Repository.demand, free, Nat.zero_add]

theorem demand_receiving (query : Nat → Nat) (call : Nat) {holder : Nat} (held : state.holder = some (holder, .receiving)) (receiver : Nat) :
    state.demand query receiver call = (if query holder = receiver then 1 else 0) +
      (state.queue.takeWhile (· ≠ call)).countP (query · = receiver) := by
  rw [Repository.demand, held]

theorem Clear.supply (clear : Clear query target call state) {holder : Nat}
    (held : state.holder = some (holder, .receiving)) :
    ∃ before, Runs (Repository.apply query) (Undisturbed query target call) state before ∧
      before.holder = some (holder, .receiving) ∧ before.queue = state.queue ∧ Clear query target call before ∧
      ((before.receivers (query holder)).items ≠ [] ∨ (before.receivers (query holder)).closed = true) := by
  by_cases supplied : (state.receivers (query holder)).items ≠ [] ∨ (state.receivers (query holder)).closed = true
  · exact ⟨state, .start, held, rfl, clear, supplied⟩
  · push Not at supplied
    have needed := demand_receiving query call held (query holder)
    rw [if_pos rfl] at needed
    have foreign : query holder ≠ target := by
      rintro rfl
      rcases clear.enough with closed | enough
      · exact supplied.2 closed
      · rw [supplied.1, List.length_nil] at enough
        omega
    have other : query holder ≠ query call := by
      intro same
      have own := clear.own
      rw [← same, supplied.1, List.length_nil] at own
      omega
    obtain ⟨item, present⟩ := List.exists_mem_of_length_pos (lt_of_le_of_lt (Nat.zero_le _) clear.own)
    refine ⟨state.apply query (.deliver (query holder) item), .one (.deliver (query holder) item) ⟨foreign, other⟩ rfl, held, rfl,
      ⟨?_, ?_⟩, .inl ?_⟩
    · rw [show (state.apply query (.deliver (query holder) item)).receivers target = state.receivers target from
        Function.update_of_ne foreign.symm _ _]
      exact clear.enough
    · rw [show (state.apply query (.deliver (query holder) item)).receivers (query call) = state.receivers (query call) from
        Function.update_of_ne other.symm _ _]
      exact clear.own
    · simp [Repository.apply]

theorem Clear.release (clear : Clear query target call state) :
    ∃ after, Runs (Repository.apply query) (Undisturbed query target call) state after ∧ after.holder = none ∧
      after.queue = state.queue ∧ Clear query target call after := by
  cases held : state.holder with
  | none => exact ⟨state, .start, held, rfl, clear⟩
  | some pair =>
    obtain ⟨holder, _ | item⟩ := pair
    · obtain ⟨before, supplied, waits, queue, clear, ready⟩ := clear.supply held
      obtain ⟨after, run, done⟩ := served target call waits ready
      have less (receiver : Nat) : after.demand query receiver call + (if query holder = receiver then 1 else 0) =
          before.demand query receiver call := by
        rw [demand_free done.free, demand_receiving query call waits, done.queue, Nat.add_comm]
      refine ⟨after, supplied.trans run, done.free, done.queue.trans queue, ?_, ?_⟩
      · have demand := less target
        have items := done.items target
        rw [done.closed]
        refine clear.enough.imp_right fun enough => ?_
        omega
      · have demand := less (query call)
        have items := done.items (query call)
        have own := clear.own
        omega
    · refine ⟨state.answer holder (.answered item), .one .finish trivial (by rw [Repository.apply, held]), rfl, rfl, ?_⟩
      have same (receiver : Nat) : (state.answer holder (.answered item)).demand query receiver call =
          state.demand query receiver call := by
        rw [Repository.demand, Repository.demand, held]
        rfl
      exact ⟨(same target).symm ▸ clear.enough, (same (query call)).symm ▸ clear.own⟩

theorem Clear.answered (clear : Clear query target call state) (waiting : call ∈ state.queue) :
    ∃ after, Runs (Repository.apply query) (Undisturbed query target call) state after ∧
      ∃ item, after.outcomes call = some (.answered item) := by
  -- by induction on the queue, from a free map
  have freed (queue : List Nat) : ∀ state : Repository Item, state.holder = none → state.queue = queue → call ∈ queue →
      Clear query target call state →
      ∃ after, Runs (Repository.apply query) (Undisturbed query target call) state after ∧
        ∃ item, after.outcomes call = some (.answered item) := by
    induction queue with
    | nil => exact fun _ _ _ member => nomatch member
    | cons first queue ih =>
      intro state free waits member clear
      have acquired : Runs (Repository.apply query) (Undisturbed query target call) state
          { state with holder := some (first, .receiving), queue } :=
        .one .acquire trivial (by rw [Repository.apply, free, waits])
      by_cases same : first = call
      · subst same
        have own := clear.own
        have filled : (state.receivers (query first)).items ≠ [] :=
          List.ne_nil_of_length_pos (lt_of_le_of_lt (Nat.zero_le _) own)
        have holds : ({ state with holder := some (first, .receiving), queue } : Repository Item).holder =
          some (first, .receiving) := rfl
        obtain ⟨after, run, done⟩ := served target first holds (.inl filled)
        exact ⟨after, acquired.trans run, done.answered filled⟩
      · have kept (receiver : Nat) :
            ({ state with holder := some (first, .receiving), queue } : Repository Item).demand query receiver call =
              state.demand query receiver call := by
          rw [demand_free free, waits, Repository.demand]
          simp [same, List.countP_cons, Nat.add_comm]
        have next : Clear query target call { state with holder := some (first, .receiving), queue } :=
          ⟨(kept target).symm ▸ clear.enough, (kept (query call)).symm ▸ clear.own⟩
        obtain ⟨middle, run, open_, rest, clear⟩ := next.release
        obtain ⟨after, more, answered⟩ := ih middle open_ rest ((List.mem_cons.mp member).resolve_left (Ne.symm same)) clear
        exact ⟨after, (acquired.trans run).trans more, answered⟩
  obtain ⟨middle, run, free, queue, clear⟩ := clear.release
  obtain ⟨after, more, answered⟩ := freed _ middle free rfl (queue ▸ waiting) clear
  exact ⟨after, run.trans more, answered⟩

/-- A call that waits for the map, with an item for it in its receiver, returns without a delivery to another receiver
exactly if no call of that query before it waits for one. -/
theorem completes_iff (query : Nat → Nat) (registered : Nat → Bool) (receivers : Nat → Receiver Item)
    (run : Runs (Repository.apply query) (fun _ _ => True) (.start registered receivers) state)
    (target call : Nat) (waiting : call ∈ state.queue)
    (ready : state.demand query (query call) call < (state.receivers (query call)).items.length) :
    (∃ after, Runs (Repository.apply query) (Undisturbed query target call) state after ∧
      ∃ item, after.outcomes call = some (.answered item)) ↔
        (state.receivers target).closed = true ∨
          state.demand query target call ≤ (state.receivers target).items.length := by
  constructor
  · rintro ⟨after, continued, item, answered⟩
    by_contra blocked
    push Not at blocked
    have stuck : Stuck query target call state := ⟨waiting, Bool.eq_false_iff.mpr blocked.1, blocked.2⟩
    rw [stuck.runs (.of_run run) continued] at answered
    cases answered
  · exact fun enough => Clear.answered ⟨enough, ready⟩ waiting

def twoQueries : Nat → Nat := (· + 1)

def waitingCalls (extended : Bool) : Repository Nat :=
  [LockStep.begin 0, .acquire, .deliver 2 7, .begin 1].foldl (Repository.apply twoQueries)
    (.start (fun _ => extended) fun _ => ⟨[], false⟩)

theorem waitingCalls_run (extended : Bool) : Runs (Repository.apply twoQueries) (fun _ _ => True)
    (.start (fun _ => extended) fun _ => ⟨[], false⟩) (waitingCalls extended) :=
  Runs.of_list _ _ fun _ _ => trivial

theorem completes_delivered : ∃ after, Runs (Repository.apply twoQueries) (Undisturbed twoQueries 1 1)
    ((waitingCalls false).apply twoQueries (.deliver 1 5)) after ∧ ∃ item, after.outcomes 1 = some (.answered item) :=
  (completes_iff twoQueries _ _ ((waitingCalls_run false).step (.deliver 1 5) trivial) 1 1 (by decide) (by decide)).mpr
    (.inr (by decide))

theorem waitingCalls_stuck (extended : Bool) : Stuck twoQueries 1 1 (waitingCalls extended) := by
  cases extended
  · exact ⟨by decide, rfl, by decide⟩
  · exact ⟨by decide, rfl, by decide⟩

theorem call_blocked :
    ((waitingCalls false).receivers 2).items = [7] ∧ ((waitingCalls true).receivers 2).items = [7] ∧
    (¬ ∃ after item, Runs (Repository.apply twoQueries) (Undisturbed twoQueries 1 1) (waitingCalls false) after ∧
      after.outcomes 1 = some (.answered item)) ∧
    ¬ ∃ after item, Runs (Repository.apply twoQueries) (Undisturbed twoQueries 1 1) (waitingCalls true) after ∧
      after.outcomes 1 = some (.answered item) := by
  have blocked (extended : Bool) : ¬ ∃ after item, Runs (Repository.apply twoQueries) (Undisturbed twoQueries 1 1)
      (waitingCalls extended) after ∧ after.outcomes 1 = some (.answered item) := by
    rintro ⟨after, item, run, answered⟩
    rw [(waitingCalls_stuck extended).runs (.of_run (waitingCalls_run extended)) run] at answered
    cases answered
  exact ⟨by decide, by decide, blocked false, blocked true⟩

end Progress

end ReductStore.QueryLock
