import Mathlib

set_option autoImplicit false

namespace ReductStore.Condition

structure Gate where
  gateDeadline : Option Nat := none
  previousInput : Bool := false
  resetRequired : Bool := false
  lastTimestamp : Option Nat := none
  deriving DecidableEq

namespace Gate

def maxTimestamp : Nat := 2 ^ 64 - 1

def resetState (gate : Gate) : Gate :=
  { gate with gateDeadline := none, previousInput := false, resetRequired := false }

def arrive (gate : Gate) (timestamp : Nat) : Gate :=
  let gate := match gate.lastTimestamp with
    | some lastTimestamp => if timestamp < lastTimestamp then gate.resetState else gate
    | none => gate
  { gate with lastTimestamp := some timestamp }

def settle (gate : Gate) (timestamp duration : Nat) (input : Bool) : Bool × Gate :=
  -- expire the active window and arm the reset latch
  let gate := match gate.gateDeadline with
    | some deadline =>
      if deadline ≤ timestamp then { gate with gateDeadline := none, resetRequired := true } else gate
    | none => gate
  if gate.resetRequired then
    let gate := if ! input then { gate with resetRequired := false } else gate
    (false, { gate with previousInput := input })
  else
    -- a rising edge opens a window
    let gate := if gate.gateDeadline = none ∧ gate.previousInput = false ∧ input = true then
        { gate with gateDeadline := some (min (timestamp + duration) maxTimestamp) }
      else gate
    let output := match gate.gateDeadline with
      | some deadline => if timestamp < deadline then input else false
      | none => false
    (output, { gate with previousInput := input })

def apply (gate : Gate) (timestamp duration : Nat) (input : Bool) : Bool × Gate :=
  (gate.arrive timestamp).settle timestamp duration input

inductive Applied (gate : Gate) (timestamp duration : Nat) (input : Bool) : Bool → Gate → Prop where
  | expired {deadline : Nat} (before : gate.gateDeadline = some deadline) (late : deadline ≤ timestamp) :
      Applied gate timestamp duration input false ⟨none, input, input, some timestamp⟩
  | latched (closed : gate.gateDeadline = none) (latch : gate.resetRequired = true) :
      Applied gate timestamp duration input false ⟨none, input, input, some timestamp⟩
  | opened (closed : gate.gateDeadline = none) (free : gate.resetRequired = false)
      (low : gate.previousInput = false) (rising : input = true) :
      Applied gate timestamp duration input (timestamp < min (timestamp + duration) maxTimestamp)
        ⟨some (min (timestamp + duration) maxTimestamp), true, false, some timestamp⟩
  | mirrored {deadline : Nat} (before : gate.gateDeadline = some deadline) (early : timestamp < deadline)
      (free : gate.resetRequired = false) :
      Applied gate timestamp duration input input ⟨some deadline, input, false, some timestamp⟩
  | idle (closed : gate.gateDeadline = none) (free : gate.resetRequired = false)
      (flat : gate.previousInput = true ∨ input = false) :
      Applied gate timestamp duration input false ⟨none, input, false, some timestamp⟩

theorem applied (gate : Gate) {timestamp : Nat} (duration : Nat) (input : Bool)
    (forward : ∀ last ∈ gate.lastTimestamp, last ≤ timestamp)
    (free : gate.gateDeadline ≠ none → gate.resetRequired = false) :
    Applied gate timestamp duration input (gate.apply timestamp duration input).1 (gate.apply timestamp duration input).2 := by
  have arrives : gate.arrive timestamp = { gate with lastTimestamp := some timestamp } := by
    unfold arrive
    cases last : gate.lastTimestamp with
    | none => rfl
    | some lastTimestamp => simp [Nat.not_lt.mpr (forward lastTimestamp last)]
  rw [apply, arrives]
  obtain ⟨deadline, previous, reset, last⟩ := gate
  cases deadline with
  | some deadline =>
    obtain rfl : reset = false := free (by simp)
    by_cases late : deadline ≤ timestamp
    · cases input <;> simpa [settle, late] using Applied.expired rfl late
    · simpa [settle, late, Nat.not_le.mp late] using Applied.mirrored rfl (Nat.not_le.mp late) rfl
  | none =>
    cases reset with
    | true => cases input <;> simpa [settle] using Applied.latched rfl rfl
    | false =>
      cases previous <;> cases input
      · simpa [settle] using Applied.idle rfl rfl (Or.inr rfl)
      · simpa [settle] using Applied.opened rfl rfl rfl rfl
      · simpa [settle] using Applied.idle rfl rfl (Or.inl rfl)
      · simpa [settle] using Applied.idle rfl rfl (Or.inl rfl)

namespace Applied

variable {gate next : Gate} {timestamp duration : Nat} {input output : Bool}

theorem remembers (applied : Applied gate timestamp duration input output next) :
    next.lastTimestamp = some timestamp ∧ next.previousInput = input := by
  cases applied with
  | opened _ _ _ rising => exact ⟨rfl, rising.symm⟩
  | expired => exact ⟨rfl, rfl⟩
  | latched => exact ⟨rfl, rfl⟩
  | mirrored => exact ⟨rfl, rfl⟩
  | idle => exact ⟨rfl, rfl⟩

theorem free (applied : Applied gate timestamp duration input output next)
    (isOpen : next.gateDeadline ≠ none) : next.resetRequired = false := by
  cases applied with
  | opened => rfl
  | mirrored => rfl
  | idle => rfl
  | expired => exact absurd rfl isOpen
  | latched => exact absurd rfl isOpen

theorem edge (applied : Applied gate timestamp duration input output next)
    (closed : gate.gateDeadline = none) (isOpen : next.gateDeadline ≠ none) :
    next.gateDeadline = some (min (timestamp + duration) maxTimestamp) ∧ gate.resetRequired = false ∧
      gate.previousInput = false ∧ input = true := by
  cases applied with
  | opened _ free low rising => exact ⟨rfl, free, low, rising⟩
  | mirrored before => simp [closed] at before
  | expired => exact absurd rfl isOpen
  | latched => exact absurd rfl isOpen
  | idle => exact absurd rfl isOpen

theorem stays (applied : Applied gate timestamp duration input output next)
    (before : gate.gateDeadline ≠ none) (isOpen : next.gateDeadline ≠ none) :
    next.gateDeadline = gate.gateDeadline := by
  cases applied with
  | mirrored same => exact same.symm
  | opened closed => exact absurd closed before
  | expired => exact absurd rfl isOpen
  | latched => exact absurd rfl isOpen
  | idle => exact absurd rfl isOpen

theorem passes (applied : Applied gate timestamp duration input output next) (isOutput : output = true) :
    input = true ∧ ∃ deadline, next.gateDeadline = some deadline ∧ timestamp < deadline := by
  cases applied with
  | opened _ _ _ rising => exact ⟨rising, _, rfl, by simpa using isOutput⟩
  | mirrored _ early => exact ⟨isOutput, _, rfl, early⟩
  | expired => simp at isOutput
  | latched => simp at isOutput
  | idle => simp at isOutput

end Applied

structure Observation where
  timestamp : Nat
  input : Bool
  deriving DecidableEq

section Run

variable (duration : Nat) (observations : List Observation)

def after (count : Nat) : Gate :=
  (observations.take count).foldl
    (fun gate observation => (gate.apply observation.timestamp duration observation.input).2) {}

def Passes (index : Nat) : Prop :=
  ∃ observation, observations[index]? = some observation ∧
    ((after duration observations index).apply observation.timestamp duration observation.input).1 = true

def Opens (index : Nat) : Prop :=
  (after duration observations index).gateDeadline = none ∧
    (after duration observations (index + 1)).gateDeadline ≠ none

structure InWindow (edge index : Nat) : Prop where
  opens : Opens duration observations edge
  before : edge ≤ index
  last : ∀ between, edge < between → between ≤ index → ¬ Opens duration observations between

def Rises (index : Nat) : Prop :=
  (∃ observation, observations[index]? = some observation ∧ observation.input = true) ∧
    ∀ previous, index = previous + 1 →
      ∃ observation, observations[previous]? = some observation ∧ observation.input = false

variable {duration observations}

theorem after_succ {index : Nat} {observation : Observation}
    (at_index : observations[index]? = some observation) :
    after duration observations (index + 1) =
      ((after duration observations index).apply observation.timestamp duration observation.input).2 := by
  simp [after, List.take_add_one, at_index]

def closing (duration : Nat) (observation : Observation) : Nat :=
  min (observation.timestamp + duration) maxTimestamp

variable (observations) in
inductive Progress (edge index deadline : Nat) (gate : Gate) : Prop where
  | running (isOpen : gate.gateDeadline = some deadline)
  | expired (closed : gate.gateDeadline = none) (latch : gate.resetRequired = true) {late : Nat}
      {observation : Observation} (at_late : observations[late]? = some observation)
      (later : edge < late) (seen : late < index) (time : deadline ≤ observation.timestamp)
  | reset {low : Nat} {observation : Observation} (at_low : observations[low]? = some observation)
      (later : edge < low) (seen : low < index) (time : deadline ≤ observation.timestamp)
      (isLow : observation.input = false)

variable (duration observations) in
structure Tracked (index : Nat) (gate : Gate) : Prop where
  start : index = 0 → gate = {}
  remembered : ∀ previous, index = previous + 1 → ∃ observation, observations[previous]? = some observation ∧
    gate.lastTimestamp = some observation.timestamp ∧ gate.previousInput = observation.input
  free : gate.gateDeadline ≠ none → gate.resetRequired = false
  running : ∀ deadline, gate.gateDeadline = some deadline → ∃ edge observation, edge < index ∧
    observations[edge]? = some observation ∧ Opens duration observations edge ∧
    deadline = closing duration observation ∧
    ∀ between, edge < between → between < index → ¬ Opens duration observations between
  progress : ∀ edge observation, edge < index → Opens duration observations edge →
    observations[edge]? = some observation →
    Progress observations edge index (closing duration observation) gate

def Nondecreasing (observations : List Observation) : Prop :=
  observations.Pairwise fun earlier later => earlier.timestamp ≤ later.timestamp

theorem Nondecreasing.le (ordered : Nondecreasing observations) {first second : Nat}
    {earlier later : Observation} (before : first ≤ second) (at_first : observations[first]? = some earlier)
    (at_second : observations[second]? = some later) : earlier.timestamp ≤ later.timestamp := by
  obtain ⟨inFirst, rfl⟩ := List.getElem?_eq_some_iff.mp at_first
  obtain ⟨inSecond, rfl⟩ := List.getElem?_eq_some_iff.mp at_second
  rcases Nat.eq_or_lt_of_le before with rfl | before
  · exact le_rfl
  · exact List.pairwise_iff_getElem.mp ordered first second inFirst inSecond before

section Step

variable {index : Nat} {observation : Observation} {gate : Gate}

theorem Tracked.forward (ordered : Nondecreasing observations) (at_index : observations[index]? = some observation)
    (tracked : Tracked duration observations index gate) :
    ∀ last ∈ gate.lastTimestamp, last ≤ observation.timestamp := by
  intro last isLast
  cases index with
  | zero => simp [tracked.start rfl] at isLast
  | succ previous =>
    obtain ⟨earlier, at_previous, time, -⟩ := tracked.remembered previous rfl
    obtain rfl : earlier.timestamp = last := by simpa [time] using isLast
    exact ordered.le (Nat.le_succ previous) at_previous at_index

theorem Tracked.low (tracked : Tracked duration observations index gate) (low : gate.previousInput = false) :
    ∀ previous, index = previous + 1 →
      ∃ observation, observations[previous]? = some observation ∧ observation.input = false := by
  intro previous isPrevious
  obtain ⟨observation, at_previous, -, input⟩ := tracked.remembered previous isPrevious
  exact ⟨observation, at_previous, input ▸ low⟩

variable {output : Bool} {next : Gate}

theorem Progress.of_latch {edge deadline late : Nat} {earlier : Observation}
    (at_late : observations[late]? = some earlier) (later : edge < late) (seen : late ≤ index)
    (time : deadline ≤ earlier.timestamp) (at_index : observations[index]? = some observation)
    (ordered : Nondecreasing observations) :
    Progress observations edge (index + 1) deadline
      ⟨none, observation.input, observation.input, some observation.timestamp⟩ := by
  cases input : observation.input with
  | true => exact .expired rfl rfl at_late later (by omega) time
  | false =>
    exact .reset at_index (by omega) (by omega) (time.trans (ordered.le seen at_late at_index)) input

theorem Progress.step (ordered : Nondecreasing observations) (at_index : observations[index]? = some observation)
    (applied : Applied gate observation.timestamp duration observation.input output next)
    {edge deadline : Nat} (earlier : edge < index)
    (progress : Progress observations edge index deadline gate) :
    Progress observations edge (index + 1) deadline next := by
  cases progress with
  | reset at_low later seen time isLow => exact .reset at_low later (by omega) time isLow
  | running isOpen =>
    cases applied with
    | expired before late =>
      obtain rfl : deadline = _ := Option.some.inj (isOpen.symm.trans before)
      exact .of_latch at_index earlier le_rfl late at_index ordered
    | mirrored before => exact .running (before.symm.trans isOpen)
    | latched closed => simp [closed] at isOpen
    | opened closed => simp [closed] at isOpen
    | idle closed => simp [closed] at isOpen
  | expired closed latch at_late later seen time =>
    cases applied with
    | latched => exact .of_latch at_late later seen.le time at_index ordered
    | expired before => simp [closed] at before
    | mirrored before => simp [closed] at before
    | opened _ free => simp [latch] at free
    | idle _ free => simp [latch] at free

theorem Tracked.step (ordered : Nondecreasing observations) (at_index : observations[index]? = some observation)
    (tracked : Tracked duration observations index (after duration observations index)) :
    Tracked duration observations (index + 1) (after duration observations (index + 1)) := by
  have applied := Gate.applied _ duration observation.input (tracked.forward ordered at_index) tracked.free
  rw [← after_succ at_index] at applied
  refine ⟨by simp, ?remembered, ?free, ?running, ?progress⟩
  case remembered =>
    intro previous isPrevious
    obtain rfl : index = previous := by omega
    exact ⟨observation, at_index, applied.remembers⟩
  case free => exact applied.free
  case running =>
    intro deadline isOpen
    by_cases closed : (after duration observations index).gateDeadline = none
    · -- the observation itself has opened the window
      have opens : Opens duration observations index := ⟨closed, by simp [isOpen]⟩
      have isClosing := (applied.edge closed opens.2).1
      exact ⟨index, observation, by omega, at_index, opens, Option.some.inj (isOpen.symm.trans isClosing),
        by omega⟩
    · have same := (applied.stays closed (by simp [isOpen])).symm.trans isOpen
      obtain ⟨edge, opener, earlier, at_edge, opens, isClosing, last⟩ := tracked.running deadline same
      refine ⟨edge, opener, by omega, at_edge, opens, isClosing, fun between later seen => ?_⟩
      rcases Nat.lt_succ_iff_lt_or_eq.mp seen with seen | rfl
      · exact last between later seen
      · exact fun opening => closed opening.1
  case progress =>
    intro edge opener earlier opens at_edge
    rcases Nat.lt_succ_iff_lt_or_eq.mp earlier with earlier | rfl
    · exact (tracked.progress edge opener earlier opens at_edge).step ordered at_index applied earlier
    · obtain rfl : observation = opener := Option.some.inj (at_index.symm.trans at_edge)
      exact .running (applied.edge opens.1 opens.2).1

end Step

theorem tracked_after (ordered : Nondecreasing observations) :
    ∀ index ≤ observations.length, Tracked duration observations index (after duration observations index)
  | 0, _ => by
    have start : after duration observations 0 = {} := by simp [after]
    exact ⟨fun _ => start, by simp, by simp [start], by simp [start], by simp⟩
  | index + 1, inside =>
    (tracked_after ordered index (by omega)).step ordered (List.getElem?_eq_getElem (by omega))

theorem applied_after (ordered : Nondecreasing observations) {index : Nat} {observation : Observation}
    (at_index : observations[index]? = some observation) :
    Applied (after duration observations index) observation.timestamp duration observation.input
      ((after duration observations index).apply observation.timestamp duration observation.input).1
      (after duration observations (index + 1)) := by
  have tracked : Tracked duration observations index _ :=
    tracked_after ordered index (List.getElem?_eq_some_iff.mp at_index).1.le
  rw [after_succ at_index]
  exact Gate.applied _ duration observation.input (tracked.forward ordered at_index) tracked.free

theorem Opens.inside {index : Nat} (opens : Opens duration observations index) : index < observations.length := by
  by_contra beyond
  have same : after duration observations (index + 1) = after duration observations index := by
    have whole : observations.take index = observations := List.take_of_length_le (by omega)
    have longer : observations.take (index + 1) = observations := List.take_of_length_le (by omega)
    rw [after, after, whole, longer]
  exact opens.2 (same ▸ opens.1)

theorem Opens.rises (ordered : Nondecreasing observations) {index : Nat} (opens : Opens duration observations index) :
    Rises observations index := by
  have at_index := List.getElem?_eq_getElem opens.inside
  obtain ⟨-, -, low, rising⟩ := (applied_after ordered at_index).edge opens.1 opens.2
  exact ⟨⟨_, at_index, rising⟩, (tracked_after ordered index opens.inside.le).low low⟩

theorem Passes.window (ordered : Nondecreasing observations) {index : Nat} (passes : Passes duration observations index) :
    ∃ observation, observations[index]? = some observation ∧ observation.input = true ∧
      ∃ edge opener, InWindow duration observations edge index ∧ observations[edge]? = some opener ∧
        observation.timestamp < closing duration opener := by
  obtain ⟨observation, at_index, output⟩ := passes
  obtain ⟨input, deadline, isOpen, early⟩ := (applied_after ordered at_index).passes output
  have inside := (List.getElem?_eq_some_iff.mp at_index).1
  obtain ⟨edge, opener, earlier, at_edge, opens, rfl, last⟩ :=
    (tracked_after ordered (index + 1) inside).running deadline isOpen
  exact ⟨observation, at_index, input, edge, opener,
    ⟨opens, by omega, fun between later seen => last between later (by omega)⟩, at_edge, early⟩

theorem Opens.reset (ordered : Nondecreasing observations) {edge next : Nat} {opener : Observation}
    (opens : Opens duration observations next) (earlier : edge < next) (opened : Opens duration observations edge)
    (at_edge : observations[edge]? = some opener) :
    ∃ low observation, edge < low ∧ low < next ∧ observations[low]? = some observation ∧
      observation.input = false ∧ closing duration opener ≤ observation.timestamp := by
  have free := ((applied_after ordered (List.getElem?_eq_getElem opens.inside)).edge opens.1 opens.2).2.1
  cases (tracked_after ordered next opens.inside.le).progress edge opener earlier opened at_edge with
  | running isOpen => simp [opens.1] at isOpen
  | expired _ latch => simp [free] at latch
  | reset at_low later seen time isLow => exact ⟨_, _, later, seen, at_low, isLow, time⟩

theorem InWindow.unique {first second index : Nat} (one : InWindow duration observations first index)
    (other : InWindow duration observations second index) : first = second := by
  rcases Nat.lt_trichotomy first second with less | same | more
  · exact absurd other.opens (one.last second less other.before)
  · exact same
  · exact absurd one.opens (other.last first more one.before)

/-- An output of true mirrors the input inside a window that a rising edge has opened, and the input
was low after the end of one window before the next one lets anything through. -/
theorem gate_windows (duration : Nat) (observations : List Observation)
    (ordered : Nondecreasing observations) :
    (∀ index, Passes duration observations index →
      ∃ observation, observations[index]? = some observation ∧ observation.input = true ∧
        ∃ edge opener, InWindow duration observations edge index ∧ Rises observations edge ∧
          observations[edge]? = some opener ∧ opener.timestamp ≤ observation.timestamp ∧
          observation.timestamp < opener.timestamp + duration) ∧
    ∀ first second, Passes duration observations first → Passes duration observations second →
      ∀ edge next opener, InWindow duration observations edge first → InWindow duration observations next second →
        edge < next → observations[edge]? = some opener →
        ∃ low observation, first < low ∧ low < second ∧ observations[low]? = some observation ∧
          observation.input = false ∧ opener.timestamp + duration ≤ observation.timestamp := by
  refine ⟨fun index passes => ?_, fun first second passes passes' edge next opener window window' earlier at_edge => ?_⟩
  · obtain ⟨observation, at_index, input, edge, opener, window, at_edge, early⟩ := passes.window ordered
    exact ⟨observation, at_index, input, edge, opener, window, window.opens.rises ordered, at_edge,
      ordered.le window.before at_edge at_index, early.trans_le (Nat.min_le_left _ _)⟩
  · obtain ⟨low, observation, -, seen, at_low, isLow, late⟩ :=
      window'.opens.reset ordered earlier window.opens at_edge
    obtain ⟨passed, at_first, -, edge', opener', sameWindow, at_edge', early⟩ := passes.window ordered
    obtain rfl := window.unique sameWindow
    obtain rfl : opener = opener' := Option.some.inj (at_edge.symm.trans at_edge')
    obtain ⟨passed', at_second, -, _, _, -, -, early'⟩ := passes'.window ordered
    have seenLater : low < second := seen.trans_le window'.before
    refine ⟨low, observation, ?_, seenLater, at_low, isLow, ?_⟩
    · by_contra notAfter
      have := ordered.le (Nat.not_lt.mp notAfter) at_low at_first
      omega
    · -- a window cut at the largest timestamp is never followed by one that lets something through
      have bound := ordered.le seenLater.le at_low at_second
      simp only [closing] at late early'
      omega

def twoWindows : List Observation := [⟨0, true⟩, ⟨10, true⟩, ⟨11, false⟩, ⟨12, true⟩]

theorem gate_windows_twice : Passes 10 twoWindows 0 ∧ Passes 10 twoWindows 3 ∧
    ∃ low observation, 0 < low ∧ low < 3 ∧ twoWindows[low]? = some observation ∧
      observation.input = false ∧ 10 ≤ observation.timestamp := by
  have first : Passes 10 twoWindows 0 := ⟨⟨0, true⟩, by decide, by decide⟩
  have second : Passes 10 twoWindows 3 := ⟨⟨12, true⟩, by decide, by decide⟩
  have ordered : Nondecreasing twoWindows := by
    unfold Nondecreasing
    decide
  refine ⟨first, second, (gate_windows 10 twoWindows ordered).2 0 3 first second 0 3 ⟨0, true⟩ ?_ ?_
    (by decide) (by decide)⟩
  · exact ⟨⟨by decide, by decide⟩, by decide, by omega⟩
  · exact ⟨⟨by decide, by decide⟩, by decide, by omega⟩

end Run

end Gate

end ReductStore.Condition
