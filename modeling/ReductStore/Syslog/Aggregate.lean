import ReductStore.Condition.MachineInt
import ReductStore.Shared.Machine

set_option autoImplicit false

namespace ReductStore.Syslog

open Condition

section Events

variable {F : Type}

inductive SystemEventKind where
  | audit
  | lifecycle
  | replication
  | usage
  | log
  deriving DecidableEq

structure ApiAuditPayload (F : Type) where
  tokenName : String
  method : String
  path : String
  clientIp : Option String
  callCount : Nat
  duration : F
  deriving DecidableEq

def ApiAuditPayload.entryName (payload : ApiAuditPayload F) : String := payload.tokenName

structure SystemEvent (F : Type) where
  kind : SystemEventKind
  replicate : Bool
  eventType : String
  timestamp : Nat
  instanceName : String
  entryName : String
  status : Nat
  message : String
  payload : Option (ApiAuditPayload F)
  deriving DecidableEq

structure AuditAggregateKey where
  instanceName : String
  tokenName : String
  method : String
  path : String
  status : Nat
  message : String
  clientIp : Option String
  deriving DecidableEq

structure AuditAggregate (F : Type) where
  firstTimestamp : Nat
  lastTimestamp : Nat
  callCount : Nat
  totalDuration : F
  flushAt : Nat
  forceFlushAt : Nat
  deriving DecidableEq

def makeEvent (key : AuditAggregateKey) (aggregate : AuditAggregate F) : SystemEvent F :=
  let payload : ApiAuditPayload F :=
    { tokenName := key.tokenName
      method := key.method
      path := key.path
      clientIp := key.clientIp
      callCount := aggregate.callCount
      duration := aggregate.totalDuration }
  { kind := .audit
    replicate := true
    eventType := "api_call"
    timestamp := aggregate.firstTimestamp
    instanceName := key.instanceName
    entryName := payload.entryName
    status := key.status
    message := key.message
    payload := some payload }

def aggregateKey (event : SystemEvent F) (payload : ApiAuditPayload F) : AuditAggregateKey :=
  { instanceName := event.instanceName
    tokenName := payload.tokenName
    method := payload.method
    path := payload.path
    status := event.status
    message := event.message
    clientIp := payload.clientIp }

end Events

section Table

variable {Key Value : Type} [DecidableEq Key]

def upsert (key : Key) (modify : Value → Option Value) (new : Value) : List (Key × Value) → Option (List (Key × Value))
  | [] => some [(key, new)]
  | (other, value) :: rest =>
    if other = key then (modify value).map fun value => (other, value) :: rest
    else (upsert key modify new rest).map fun rest => (other, value) :: rest

theorem upsert_keys {key : Key} {modify : Value → Option Value} {new : Value} {items result : List (Key × Value)}
    (done : upsert key modify new items = some result) :
    result.map Prod.fst = if key ∈ items.map Prod.fst then items.map Prod.fst else items.map Prod.fst ++ [key] := by
  induction items generalizing result with
  | nil =>
    obtain rfl := Option.some.inj done
    rfl
  | cons item items ih =>
    rw [upsert] at done
    split_ifs at done with same
    · obtain ⟨value, _, rfl⟩ := Option.map_eq_some_iff.mp done
      simp [same]
    · obtain ⟨rest, inner, rfl⟩ := Option.map_eq_some_iff.mp done
      rw [List.map_cons, ih inner]
      by_cases member : key ∈ items.map Prod.fst
      · rw [if_pos member, List.map_cons, if_pos (List.mem_cons_of_mem _ member)]
      · rw [if_neg member, List.map_cons, if_neg (by simpa [Ne.symm same] using member), List.cons_append]

theorem upsert_sum {key : Key} {modify : Value → Option Value} {new : Value} {items : List (Key × Value)}
    (measure : Key → Value → Nat) (amount : Nat) (fresh : measure key new = amount)
    (changed : ∀ value, (key, value) ∈ items →
      ∃ after, modify value = some after ∧ measure key after = measure key value + amount) :
    ∃ result, upsert key modify new items = some result ∧
      (result.map fun item => measure item.1 item.2).sum = (items.map fun item => measure item.1 item.2).sum + amount := by
  induction items with
  | nil => exact ⟨_, rfl, by simp [fresh]⟩
  | cons item items ih =>
    obtain ⟨other, value⟩ := item
    rw [upsert]
    split_ifs with same
    · subst same
      obtain ⟨after, found, grown⟩ := changed value List.mem_cons_self
      refine ⟨_, by rw [found, Option.map_some], ?_⟩
      simp only [List.map_cons, List.sum_cons]
      omega
    · obtain ⟨rest, inner, tail⟩ := ih fun value member => changed value (List.mem_cons_of_mem _ member)
      refine ⟨_, by rw [inner, Option.map_some], ?_⟩
      simp only [List.map_cons, List.sum_cons]
      omega

end Table

section Worker

variable {F : Type} [Add F]

structure AuditState (F : Type) where
  aggregates : List (AuditAggregateKey × AuditAggregate F)
  distinct : (aggregates.map Prod.fst).Nodup

def AuditState.empty : AuditState F := ⟨[], List.nodup_nil⟩

def aggregationWindowSecs : Nat := 5

def forceFlushTimeoutSecs : Nat := 60

def AuditAggregate.due (aggregate : AuditAggregate F) (now : Nat) : Bool :=
  aggregate.flushAt ≤ now || aggregate.forceFlushAt ≤ now

def nextDeadline (state : AuditState F) : Option Nat :=
  (state.aggregates.map fun item => min item.2.flushAt item.2.forceFlushAt).min?

def AuditAggregate.extend (build : Build) (event : SystemEvent F) (payload : ApiAuditPayload F) (now : Nat)
    (aggregate : AuditAggregate F) : Option (AuditAggregate F) :=
  (build.addU64 aggregate.callCount payload.callCount).map fun callCount =>
    { aggregate with
      callCount
      totalDuration := aggregate.totalDuration + payload.duration
      lastTimestamp := event.timestamp
      firstTimestamp := if event.timestamp < aggregate.firstTimestamp then event.timestamp else aggregate.firstTimestamp
      flushAt := now + aggregationWindowSecs }

def AuditAggregate.open (event : SystemEvent F) (payload : ApiAuditPayload F) (now : Nat) : AuditAggregate F :=
  { firstTimestamp := event.timestamp
    lastTimestamp := event.timestamp
    callCount := payload.callCount
    totalDuration := payload.duration
    flushAt := now + aggregationWindowSecs
    forceFlushAt := now + forceFlushTimeoutSecs }

def aggregateEvent (build : Build) (event : SystemEvent F) (payload : ApiAuditPayload F) (now : Nat)
    (state : AuditState F) : Option (AuditState F) :=
  match done : upsert (aggregateKey event payload) (AuditAggregate.extend build event payload now)
      (AuditAggregate.open event payload now) state.aggregates with
  | none => none
  | some aggregates => some ⟨aggregates, by
      rw [upsert_keys done]
      split_ifs with known
      · exact state.distinct
      · rw [← List.concat_eq_append, List.nodup_concat]
        exact ⟨known, state.distinct⟩⟩

def AuditState.pending (state : AuditState F) (now : Nat) : AuditState F :=
  ⟨state.aggregates.filter fun item => !item.2.due now, state.distinct.sublist (List.filter_sublist.map Prod.fst)⟩

inductive Phase where
  | running
  | closed
  | panicked
  deriving DecidableEq

structure Worker (F : Type) where
  state : AuditState F
  phase : Phase
  received : List (SystemEvent F)
  passed : List (SystemEvent F)
  refused : List (SystemEvent F)
  lost : List (AuditAggregateKey × AuditAggregate F)

def Worker.start : Worker F :=
  { state := .empty, phase := .running, received := [], passed := [], refused := [], lost := [] }

/-- What the worker waits for. A flush takes the aggregates in the order of a hash map; `failing` is the place of the first
    event for which the handler fails. -/
inductive WorkerStep (F : Type) where
  | receive (event : SystemEvent F) (now : Nat)
  | expire (now : Nat) (order : List (AuditAggregateKey × AuditAggregate F)) (failing : Option Nat)
  | close (order : List (AuditAggregateKey × AuditAggregate F)) (failing : Option Nat)

def passedCount (length : Nat) : Option Nat → Nat
  | none => length
  | some failing => failing + 1

def Worker.flush (worker : Worker F) (state : AuditState F) (order : List (AuditAggregateKey × AuditAggregate F))
    (failing : Option Nat) : Worker F :=
  { worker with
    state
    passed := worker.passed ++ (order.take (passedCount order.length failing)).map fun item => makeEvent item.1 item.2
    lost := worker.lost ++ order.drop (passedCount order.length failing) }

def Worker.perform [DecidableEq F] (build : Build) (worker : Worker F) : WorkerStep F → Worker F
  | .receive event now =>
    let worker := { worker with received := worker.received ++ [event] }
    if event.eventType = "api_call" then
      match event.payload with
      | none => { worker with refused := worker.refused ++ [event] }
      | some payload =>
        match aggregateEvent build event payload now worker.state with
        | none => { worker with phase := .panicked }
        | some state => { worker with state }
    else { worker with passed := worker.passed ++ [event] }
  | .expire now order failing =>
    if (nextDeadline worker.state).any (· ≤ now) ∧
        order.Perm (worker.state.aggregates.filter fun item => item.2.due now) then
      worker.flush (worker.state.pending now) order failing
    else worker
  | .close order failing =>
    if order.Perm worker.state.aggregates then { worker.flush .empty order failing with phase := .closed } else worker

def Worker.apply [DecidableEq F] (build : Build) (worker : Worker F) (step : WorkerStep F) : Worker F :=
  if worker.phase = .running then worker.perform build step else worker

end Worker

section Accounting

variable {F : Type}

def callsOf (key : AuditAggregateKey) (event : SystemEvent F) : Nat :=
  match event.payload with
  | some payload => if event.eventType = "api_call" ∧ aggregateKey event payload = key then payload.callCount else 0
  | none => 0

def heldCalls (key : AuditAggregateKey) (items : List (AuditAggregateKey × AuditAggregate F)) : Nat :=
  (items.map fun item => if item.1 = key then item.2.callCount else 0).sum

def Worker.receivedCalls (worker : Worker F) (key : AuditAggregateKey) : Nat := (worker.received.map (callsOf key)).sum

def Worker.passedCalls (worker : Worker F) (key : AuditAggregateKey) : Nat := (worker.passed.map (callsOf key)).sum

theorem callsOf_makeEvent (key : AuditAggregateKey) (item : AuditAggregateKey × AuditAggregate F) :
    callsOf key (makeEvent item.1 item.2) = if item.1 = key then item.2.callCount else 0 := by
  simp only [callsOf, makeEvent, aggregateKey, true_and]

theorem heldCalls_append (key : AuditAggregateKey) (front back : List (AuditAggregateKey × AuditAggregate F)) :
    heldCalls key (front ++ back) = heldCalls key front + heldCalls key back := by
  rw [heldCalls, List.map_append, List.sum_append]
  rfl

theorem heldCalls_perm (key : AuditAggregateKey) {order items : List (AuditAggregateKey × AuditAggregate F)}
    (same : order.Perm items) : heldCalls key order = heldCalls key items := (same.map _).sum_eq

theorem heldCalls_filter (key : AuditAggregateKey) (items : List (AuditAggregateKey × AuditAggregate F))
    (chosen : AuditAggregateKey × AuditAggregate F → Bool) :
    heldCalls key items = heldCalls key (items.filter chosen) + heldCalls key (items.filter fun item => !chosen item) := by
  rw [← heldCalls_append]
  exact (heldCalls_perm key (List.filter_append_perm chosen items)).symm

structure Balanced (worker : Worker F) : Prop where
  sums : ∀ key, worker.passedCalls key + heldCalls key worker.state.aggregates + heldCalls key worker.lost =
    worker.receivedCalls key
  emptied : worker.phase = .closed → worker.state.aggregates = []
  sound : worker.phase ≠ .panicked
  accepted : worker.refused = []

theorem Balanced.start : Balanced (Worker.start : Worker F) :=
  ⟨fun _ => rfl, fun closed => (nomatch closed), fun panicked => (nomatch panicked), rfl⟩

theorem Worker.flush_sums (worker : Worker F) (state : AuditState F)
    {order taken : List (AuditAggregateKey × AuditAggregate F)} (failing : Option Nat) (key : AuditAggregateKey)
    (complete : order.Perm taken) :
    (worker.flush state order failing).passedCalls key + heldCalls key (worker.flush state order failing).lost =
      worker.passedCalls key + heldCalls key worker.lost + heldCalls key taken := by
  have passed : (worker.flush state order failing).passedCalls key =
      worker.passedCalls key + heldCalls key (order.take (passedCount order.length failing)) := by
    simp only [Worker.flush, Worker.passedCalls, List.map_append, List.map_map, List.sum_append, heldCalls]
    rw [List.map_congr_left (g := fun item => if item.1 = key then item.2.callCount else 0)
      fun item _ => callsOf_makeEvent key item]
  have lost : heldCalls key (worker.flush state order failing).lost =
      heldCalls key worker.lost + heldCalls key (order.drop (passedCount order.length failing)) := heldCalls_append _ _ _
  have whole : heldCalls key taken = heldCalls key (order.take (passedCount order.length failing)) +
      heldCalls key (order.drop (passedCount order.length failing)) := by
    rw [← heldCalls_append, List.take_append_drop, heldCalls_perm key complete]
  omega

variable [Add F]

theorem aggregateEvent_fits (build : Build) {event : SystemEvent F} {payload : ApiAuditPayload F} (now : Nat)
    {state : AuditState F} (fits : ∀ item ∈ state.aggregates, item.1 = aggregateKey event payload →
      item.2.callCount + payload.callCount < 2 ^ 64) :
    ∃ after, aggregateEvent build event payload now state = some after ∧
      ∀ key, heldCalls key after.aggregates = heldCalls key state.aggregates +
        if aggregateKey event payload = key then payload.callCount else 0 := by
  have changed (key : AuditAggregateKey) (aggregate : AuditAggregate F)
      (member : (aggregateKey event payload, aggregate) ∈ state.aggregates) :
      ∃ after, AuditAggregate.extend build event payload now aggregate = some after ∧
        (if aggregateKey event payload = key then after.callCount else 0) =
          (if aggregateKey event payload = key then aggregate.callCount else 0) +
            if aggregateKey event payload = key then payload.callCount else 0 := by
    rw [AuditAggregate.extend, build.addU64_small (fits _ member rfl)]
    refine ⟨_, rfl, ?_⟩
    split_ifs <;> rfl
  have sums (key : AuditAggregateKey) := upsert_sum
    (fun name (aggregate : AuditAggregate F) => if name = key then aggregate.callCount else 0)
    (if aggregateKey event payload = key then payload.callCount else 0)
    (show (if _ = key then (AuditAggregate.open event payload now).callCount else 0) = _ from rfl) (changed key)
  obtain ⟨aggregates, done, _⟩ := sums (aggregateKey event payload)
  rw [aggregateEvent]
  split
  next failed => rw [failed] at done; cases done
  next result found =>
    refine ⟨_, rfl, fun key => ?_⟩
    obtain ⟨_, same, sum⟩ := sums key
    obtain rfl := Option.some.inj (found.symm.trans same)
    exact sum

variable [DecidableEq F]

def Fits (worker : Worker F) : WorkerStep F → Prop
  | .receive event _ => event.eventType = "api_call" → ∃ payload, event.payload = some payload ∧
      ∀ item ∈ worker.state.aggregates, item.1 = aggregateKey event payload → item.2.callCount + payload.callCount < 2 ^ 64
  | _ => True

def Passes : WorkerStep F → Prop
  | .receive _ _ => True
  | .expire _ order failing | .close order failing => order.length ≤ passedCount order.length failing

theorem Balanced.receive {worker : Worker F} (balanced : Balanced worker) (running : worker.phase = .running) (build : Build)
    {event : SystemEvent F} (now : Nat) (fits : Fits worker (.receive event now)) :
    Balanced (worker.perform build (.receive event now)) := by
  have open_ {after : Worker F} (same : after.phase = worker.phase) : after.phase = .closed → after.state.aggregates = [] := by
    rw [same, running]
    exact fun closed => nomatch closed
  have total (key : AuditAggregateKey) : ((worker.received ++ [event]).map (callsOf key)).sum =
      worker.receivedCalls key + callsOf key event := by simp [Worker.receivedCalls]
  rw [Worker.perform]
  split_ifs with call
  · obtain ⟨payload, found, small⟩ := fits call
    obtain ⟨after, done, held⟩ := aggregateEvent_fits build now small
    simp only [found, done]
    refine ⟨fun key => ?_, open_ rfl, balanced.sound, balanced.accepted⟩
    have before := balanced.sums key
    have own : callsOf key event = if aggregateKey event payload = key then payload.callCount else 0 := by
      simp only [callsOf, found, call, true_and]
    have more := held key
    have count := total key
    simp only [Worker.passedCalls, Worker.receivedCalls] at before count ⊢
    omega
  · refine ⟨fun key => ?_, open_ rfl, balanced.sound, balanced.accepted⟩
    have before := balanced.sums key
    have none_ : callsOf key event = 0 := by
      rw [callsOf]
      cases event.payload <;> simp [call]
    have count := total key
    have passed : ((worker.passed ++ [event]).map (callsOf key)).sum = worker.passedCalls key + callsOf key event := by
      simp [Worker.passedCalls]
    simp only [Worker.passedCalls, Worker.receivedCalls] at before count passed ⊢
    omega

theorem Balanced.perform {worker : Worker F} (balanced : Balanced worker) (running : worker.phase = .running) (build : Build)
    {step : WorkerStep F} (fits : Fits worker step) : Balanced (worker.perform build step) := by
  cases step with
  | receive event now => exact balanced.receive running build now fits
  | expire now order failing =>
    rw [Worker.perform]
    split_ifs with due
    · refine ⟨fun key => ?_, fun closed => absurd (running.symm.trans closed) (by decide), balanced.sound,
        balanced.accepted⟩
      have sums := balanced.sums key
      have moved := worker.flush_sums (worker.state.pending now) failing key due.2
      have parts := heldCalls_filter key worker.state.aggregates fun item => item.2.due now
      show _ + heldCalls key (worker.state.aggregates.filter fun item => !item.2.due now) + _ = worker.receivedCalls key
      omega
    · exact balanced
  | close order failing =>
    rw [Worker.perform]
    split_ifs with complete
    · refine ⟨fun key => ?_, fun _ => rfl, fun panicked => (nomatch panicked), balanced.accepted⟩
      have sums := balanced.sums key
      have moved := worker.flush_sums .empty failing key complete
      show (worker.flush .empty order failing).passedCalls key + 0 + heldCalls key (worker.flush .empty order failing).lost =
        worker.receivedCalls key
      omega
    · exact balanced

theorem perform_lost {worker : Worker F} (build : Build) {step : WorkerStep F} (passes : Passes step) :
    (worker.perform build step).lost = worker.lost := by
  cases step with
  | receive event now =>
    rw [Worker.perform]
    split_ifs
    · cases event.payload with
      | none => rfl
      | some payload =>
        dsimp only
        cases aggregateEvent build event payload now worker.state <;> rfl
    · rfl
  | expire now order failing =>
    rw [Worker.perform]
    split_ifs
    · rw [Worker.flush, List.drop_eq_nil_of_le passes, List.append_nil]
    · rfl
  | close order failing =>
    rw [Worker.perform]
    split_ifs
    · rw [Worker.flush, List.drop_eq_nil_of_le passes, List.append_nil]
    · rfl

/-- All calls are in the events passed to the handler or in the open aggregates, and at the end in the events. -/
theorem calls_accounted (build : Build) {worker : Worker F}
    (run : Runs (Worker.apply build) (fun worker step => Fits worker step ∧ Passes step) .start worker) :
    worker.phase ≠ .panicked ∧ worker.refused = [] ∧
      ∀ key, worker.passedCalls key + heldCalls key worker.state.aggregates = worker.receivedCalls key ∧
        (worker.phase = .closed → worker.passedCalls key = worker.receivedCalls key) := by
  have kept : Balanced worker ∧ worker.lost = [] := by
    refine run.invariant (fun worker => Balanced worker ∧ worker.lost = []) ⟨.start, rfl⟩ ?_
    rintro current step ⟨balanced, empty⟩ ⟨fits, passes⟩
    rw [Worker.apply]
    split_ifs with running
    · exact ⟨balanced.perform running build fits, (perform_lost build passes).trans empty⟩
    · exact ⟨balanced, empty⟩
  obtain ⟨balanced, empty⟩ := kept
  refine ⟨balanced.sound, balanced.accepted, fun key => ?_⟩
  have sums := balanced.sums key
  rw [empty] at sums
  refine ⟨sums, fun closed => ?_⟩
  rw [balanced.emptied closed] at sums
  exact sums

def callEvent (path : String) : SystemEvent Nat :=
  { kind := .audit, replicate := true, eventType := "api_call", timestamp := 1, instanceName := "i", entryName := "t"
    status := 200, message := ""
    payload := some { tokenName := "t", method := "GET", path, clientIp := none, callCount := 1, duration := 1 } }

def callKey (path : String) : AuditAggregateKey :=
  { instanceName := "i", tokenName := "t", method := "GET", path, status := 200, message := "", clientIp := none }

def callAggregate : AuditAggregate Nat :=
  { firstTimestamp := 1, lastTimestamp := 1, callCount := 1, totalDuration := 1, flushAt := 5, forceFlushAt := 60 }

def twoCalls (failing : Option Nat) : List (WorkerStep Nat) :=
  [.receive (callEvent "/a") 0, .receive (callEvent "/b") 0,
    .close [(callKey "/a", callAggregate), (callKey "/b", callAggregate)] failing]

theorem calls_accounted_two : ∃ worker : Worker Nat, worker.phase = .closed ∧
    worker.passedCalls (callKey "/b") = worker.receivedCalls (callKey "/b") := by
  refine ⟨(twoCalls (some 1)).foldl (Worker.apply .debug) Worker.start, by decide +kernel, ?_⟩
  refine ((calls_accounted .debug (Runs.of_list (twoCalls (some 1)) Worker.start ?_)).2.2 (callKey "/b")).2 (by decide +kernel)
  intro index inside
  have small : index < 3 := inside
  interval_cases index
  · exact ⟨fun _ => ⟨_, rfl, by decide +kernel⟩, trivial⟩
  · exact ⟨fun _ => ⟨_, rfl, by decide +kernel⟩, trivial⟩
  · exact ⟨trivial, le_refl 2⟩

theorem call_lost :
    ((twoCalls (some 0)).foldl (Worker.apply .debug) Worker.start).phase = .closed ∧
      ((twoCalls (some 0)).foldl (Worker.apply .debug) Worker.start).receivedCalls (callKey "/b") = 1 ∧
      ((twoCalls (some 0)).foldl (Worker.apply .debug) Worker.start).passedCalls (callKey "/b") = 0 := by
  decide +kernel

end Accounting

end ReductStore.Syslog
