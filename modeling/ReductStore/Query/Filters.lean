import ReductStore.Storage.Record

set_option autoImplicit false

namespace ReductStore

structure TimeRangeFilter where
  start : Nat
  stop : Nat

def TimeRangeFilter.filter (filter : TimeRangeFilter) (record : Record) : List Record × TimeRangeFilter :=
  if record.timestamp ≥ filter.start ∧ record.timestamp < filter.stop then
    ([record], { filter with start := record.timestamp + 1 })
  else ([], filter)

structure RecordStateFilter where
  state : RecordState

def RecordStateFilter.filter (filter : RecordStateFilter) (record : Record) : List Record :=
  if record.state = filter.state then [record] else []

inductive Padding where
  | records (count : Nat)
  | duration (us : Nat)
  deriving DecidableEq

def queueRecord (before : Padding) (ctxBuffer : List Record) (record : Record) : List Record :=
  let ctxBuffer := ctxBuffer ++ [record]
  match before with
  | .records count => if ctxBuffer.length > count + 1 then ctxBuffer.tail else ctxBuffer
  -- the records come in the order of time, so no difference is negative
  | .duration us => ctxBuffer.dropWhile fun first => record.timestamp - first.timestamp > us

structure CtxAfter where
  after : Padding
  count : Int
  lastTs : Option Nat

def CtxAfter.check (ctx : CtxAfter) (condition : Bool) (time : Nat) : Bool × CtxAfter :=
  match ctx.after with
  | .records count =>
    let left := if condition then (count : Int) else ctx.count - 1
    (left ≥ 0, { ctx with count := left })
  | .duration us =>
    let lastTs := if condition then some time else ctx.lastTs
    (lastTs.any fun last => (last + us) % 2 ^ 64 ≥ time, { ctx with lastTs })

def uniqueLabels (labels : List Label) : List Label :=
  labels.foldl (fun kept label => kept.filter (·.name ≠ label.name) ++ [label]) []

def selectLabels (names : List String) (record : Record) : Record :=
  if names = [] then record
  else { record with labels := (uniqueLabels record.labels).filter (·.name ∈ names) }

structure Context where
  timestamp : Nat
  labels : List Label

/-- A condition may count and remember, so its value is given by all contexts up to the present one. The
    outer error is one of `apply`, the inner one of `as_bool`. -/
abbrev Condition := List Context → Except ReductError (Except ReductError Bool)

structure WhenFilter where
  condition : Condition
  strict : Bool
  ctxBefore : Padding
  ctxAfter : CtxAfter
  ctxBuffer : List Record
  labelSelector : List String
  applied : List Context

namespace WhenFilter

def new (condition : Condition) (strict : Bool) (before after : Padding) (labelSelector : List String) : WhenFilter :=
  { condition, strict
    ctxBefore := before
    ctxAfter := { after, count := 0, lastTs := none }
    ctxBuffer := []
    labelSelector
    applied := [] }

def evaluate (filter : WhenFilter) (contexts : List Context) : Except ReductError (Option Bool) :=
  match filter.condition contexts with
  | .ok value => value.map some
  | .error failure =>
    if failure.status = .interrupt then .ok none
    else if filter.strict then .error failure
    else .ok (some false)

def filter (filter : WhenFilter) (record : Record) : Except ReductError (Option (List Record)) × WhenFilter :=
  let ctxBuffer := queueRecord filter.ctxBefore filter.ctxBuffer record
  let applied := filter.applied ++ [{ timestamp := record.timestamp, labels := uniqueLabels record.labels }]
  let queued := { filter with ctxBuffer, applied }
  match filter.evaluate applied with
  | .error failure => (.error failure, queued)
  | .ok none => (.ok none, queued)
  | .ok (some result) =>
    let (passes, ctxAfter) := filter.ctxAfter.check result record.timestamp
    if passes then
      (.ok (some (ctxBuffer.map (selectLabels filter.labelSelector))), { queued with ctxAfter, ctxBuffer := [] })
    else (.ok (some []), { queued with ctxAfter })

end WhenFilter

structure Filters where
  timeRange : TimeRangeFilter
  recordState : RecordStateFilter
  whenFilter : Option WhenFilter

namespace Filters

def apply (filters : Filters) (record : Record) : Except ReductError (Option (List Record)) × Filters :=
  let (inRange, timeRange) := filters.timeRange.filter record
  let filters := { filters with timeRange }
  match inRange.flatMap filters.recordState.filter with
  | [] => (.ok (some []), filters)
  | passed :: _ =>
    match filters.whenFilter with
    | none => (.ok (some [passed]), filters)
    | some whenFilter =>
      let (result, whenFilter) := whenFilter.filter passed
      (result, { filters with whenFilter := some whenFilter })

def applyAll : List Record → Filters → Except ReductError (List Record × Bool) × Filters
  | [], filters => (.ok ([], false), filters)
  | record :: records, filters =>
    match filters.apply record with
    | (.error failure, filters) => (.error failure, filters)
    | (.ok none, filters) => (.ok ([], true), filters)
    | (.ok (some found), filters) =>
      match applyAll records filters with
      | (.error failure, filters) => (.error failure, filters)
      | (.ok (rest, interrupted), filters) => (.ok (found ++ rest, interrupted), filters)

end Filters

end ReductStore
