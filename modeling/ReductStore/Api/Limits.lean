import ReductStore.Storage.Record

set_option autoImplicit false

namespace ReductStore

inductive LimitKind where
  | apiRequests (value : Nat)
  | ingressBytes (value : Nat)
  | egressBytes (value : Nat)
  deriving DecidableEq

def LimitKind.amount : LimitKind → Nat
  | .apiRequests value | .ingressBytes value | .egressBytes value => value

inductive LimitScope where
  | clientIp (ip : String)
  | globalFallback
  deriving DecidableEq

structure WindowLimit where
  amount : Nat
  window : Nat
  deriving DecidableEq

structure LimitExceeded where
  scope : LimitScope
  kind : LimitKind
  limit : Nat
  used : Nat
  retryAfter : Nat
  deriving DecidableEq

structure WindowCounter where
  limit : Option WindowLimit
  used : Nat
  windowStartSecs : Option Nat
  deriving DecidableEq

namespace WindowCounter

def new (limit : Option WindowLimit) : WindowCounter := { limit, used := 0, windowStartSecs := none }

def saturatingAdd (used amount : Nat) : Nat := min (used + amount) (2 ^ 64 - 1)

def inWindow (counter : WindowCounter) (windowSecs nowSecs : Nat) : WindowCounter × Nat :=
  match counter.windowStartSecs with
  | some start =>
    if nowSecs - start ≥ windowSecs then ({ counter with used := 0, windowStartSecs := some nowSecs }, nowSecs)
    else (counter, start)
  | none => ({ counter with windowStartSecs := some nowSecs }, nowSecs)

def consume (counter : WindowCounter) (scope : LimitScope) (kind : LimitKind) (nowSecs : Nat) :
    Except LimitExceeded Unit × WindowCounter :=
  match counter.limit with
  | none => (.ok (), counter)
  | some limit =>
    let windowSecs := max limit.window 1
    let (counter, windowStart) := counter.inWindow windowSecs nowSecs
    let usedAfter := saturatingAdd counter.used kind.amount
    if usedAfter > limit.amount then
      (.error {
        scope
        kind
        limit := limit.amount
        used := usedAfter
        retryAfter := max (windowSecs - (nowSecs - windowStart)) 1 }, counter)
    else (.ok (), { counter with used := usedAfter })

theorem limit_consume (counter : WindowCounter) (scope : LimitScope) (kind : LimitKind) (nowSecs : Nat) :
    (counter.consume scope kind nowSecs).2.limit = counter.limit := by
  have window : ∀ windowSecs, (counter.inWindow windowSecs nowSecs).1.limit = counter.limit := by
    intro windowSecs
    unfold inWindow
    split
    · split <;> rfl
    · rfl
  unfold consume
  split
  next => rfl
  next limit same =>
    dsimp only
    split <;> exact window _

end WindowCounter

abbrev Counters := LimitScope → Option WindowCounter

namespace Counters

def pruneStaleScopes (counters : Counters) (nowSecs window : Nat) : Counters := fun scope =>
  (counters scope).filter fun counter =>
    counter.windowStartSecs.any fun start => nowSecs - start ≤ max window 1

def consumeForScope (counters : Counters) (limit : Option WindowLimit) (scope : LimitScope) (kind : LimitKind)
    (nowSecs : Nat) : Except LimitExceeded Unit × Counters :=
  match limit with
  | none => (.ok (), counters)
  | some limit =>
    let counters := counters.pruneStaleScopes nowSecs limit.window
    let counter := (counters scope).getD (WindowCounter.new (some limit))
    let (result, counter) := counter.consume scope kind nowSecs
    (result, Function.update counters scope (some counter))

def usedIn (counters : Counters) (limit : WindowLimit) (scope : LimitScope) (nowSecs : Nat) : Nat :=
  match counters scope with
  | some { used, windowStartSecs := some start, .. } => if nowSecs - start < max limit.window 1 then used else 0
  | _ => 0

def Made (counters : Counters) (limit : WindowLimit) : Prop :=
  ∀ scope counter, counters scope = some counter → counter.limit = some limit

variable {counters : Counters} {limit : WindowLimit} {scope : LimitScope} {kind : LimitKind} {nowSecs : Nat}

def counterOf (counters : Counters) (limit : WindowLimit) (scope : LimitScope) (nowSecs : Nat) : WindowCounter :=
  (counters.pruneStaleScopes nowSecs limit.window scope).getD (WindowCounter.new (some limit))

theorem consumeForScope_eq (counters : Counters) (limit : WindowLimit) (scope : LimitScope) (kind : LimitKind)
    (nowSecs : Nat) :
    counters.consumeForScope (some limit) scope kind nowSecs =
      (((counters.counterOf limit scope nowSecs).consume scope kind nowSecs).1,
        Function.update (counters.pruneStaleScopes nowSecs limit.window) scope
          (some ((counters.counterOf limit scope nowSecs).consume scope kind nowSecs).2)) := rfl

theorem mem_pruned {counter : WindowCounter}
    (kept : counters.pruneStaleScopes nowSecs limit.window scope = some counter) : counters scope = some counter :=
  (Option.filter_eq_some_iff.mp kept).1

theorem limit_counterOf (made : counters.Made limit) : (counters.counterOf limit scope nowSecs).limit = some limit := by
  unfold counterOf
  cases kept : counters.pruneStaleScopes nowSecs limit.window scope with
  | none => rfl
  | some counter => exact made scope counter (mem_pruned kept)

theorem consume_fst (counter : WindowCounter) (same : counter.limit = some limit) :
    (counter.consume scope kind nowSecs).1 = .ok () ↔
      WindowCounter.saturatingAdd (counter.inWindow (max limit.window 1) nowSecs).1.used kind.amount ≤ limit.amount := by
  rw [WindowCounter.consume, same]
  dsimp only
  split
  next exceeded => exact ⟨fun admitted => (by cases admitted), fun fits => absurd fits (by omega)⟩
  next fits => exact ⟨fun _ => by omega, fun _ => rfl⟩

theorem consumeForScope_ok_iff (made : counters.Made limit) :
    (counters.consumeForScope (some limit) scope kind nowSecs).1 = .ok () ↔
      WindowCounter.saturatingAdd (counters.usedIn limit scope nowSecs) kind.amount ≤ limit.amount := by
  have used : ((counters.counterOf limit scope nowSecs).inWindow (max limit.window 1) nowSecs).1.used =
      counters.usedIn limit scope nowSecs := by
    unfold counterOf pruneStaleScopes usedIn
    cases found : counters scope with
    | none => rfl
    | some counter =>
      obtain ⟨own, used, started⟩ := counter
      cases started with
      | none => rfl
      | some start =>
        simp only [Option.filter_some, Option.any_some]
        by_cases stale : nowSecs - start ≤ max limit.window 1
        · rw [if_pos (decide_eq_true stale), Option.getD_some, WindowCounter.inWindow]
          dsimp only
          by_cases past : nowSecs - start ≥ max limit.window 1
          · rw [if_pos past, if_neg (by omega)]
          · rw [if_neg past, if_pos (by omega)]
        · rw [if_neg (by simpa using stale), if_neg (by omega)]
          rfl
  rw [← used, ← consume_fst _ (limit_counterOf made), consumeForScope_eq]

theorem made_consumeForScope (made : counters.Made limit) (scope : LimitScope) (kind : LimitKind) (nowSecs : Nat) :
    (counters.consumeForScope (some limit) scope kind nowSecs).2.Made limit := by
  intro other counter found
  rw [consumeForScope_eq] at found
  dsimp only at found
  by_cases same : other = scope
  · rw [same, Function.update_self, Option.some.injEq] at found
    rw [← found, WindowCounter.limit_consume, limit_counterOf made]
  · rw [Function.update_of_ne same] at found
    exact made other counter (mem_pruned found)

end Counters

end ReductStore
