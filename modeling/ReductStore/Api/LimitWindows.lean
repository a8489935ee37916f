import ReductStore.Api.Limits

set_option autoImplicit false

namespace ReductStore

structure LimitCall where
  scope : LimitScope
  kind : LimitKind
  nowSecs : Nat
  deriving DecidableEq

namespace Counters

def outcomes (limit : WindowLimit) : Counters → List LimitCall → List (LimitCall × Bool)
  | _, [] => []
  | counters, call :: calls =>
    let (result, next) := counters.consumeForScope (some limit) call.scope call.kind call.nowSecs
    (call, decide (result = .ok ())) :: outcomes limit next calls

def afterCalls (limit : WindowLimit) (counters : Counters) (calls : List LimitCall) : Counters :=
  calls.foldl (fun counters call => (counters.consumeForScope (some limit) call.scope call.kind call.nowSecs).2) counters

def granted (outcomes : List (LimitCall × Bool)) (scope : LimitScope) (within : Nat → Prop) [DecidablePred within] : Nat :=
  ((outcomes.filter fun outcome => outcome.1.scope = scope ∧ outcome.2 = true ∧ within outcome.1.nowSecs).map
    fun outcome => outcome.1.kind.amount).sum

structure Enforced (limit : WindowLimit) (calls : List LimitCall) : Prop where
  sliding : ∀ scope start, granted (outcomes limit (fun _ => none) calls) scope
    (fun now => start ≤ now ∧ now < start + max limit.window 1) ≤ 2 * limit.amount
  window : ∀ scope counter start, afterCalls limit (fun _ => none) calls scope = some counter →
    counter.windowStartSecs = some start →
    granted (outcomes limit (fun _ => none) calls) scope (start ≤ ·) ≤ limit.amount
  isolated : ∀ scope, (outcomes limit (fun _ => none) calls).filter (fun outcome => decide (outcome.1.scope = scope)) =
    outcomes limit (fun _ => none) (calls.filter fun call => decide (call.scope = scope))

section Slot

def fresh (width now : Nat) (slot : Option (Nat × Nat)) : Option (Nat × Nat) :=
  slot.filter fun window => decide (now - window.1 < width)

theorem fresh_some (width now start used : Nat) :
    fresh width now (some (start, used)) = if now - start < width then some (start, used) else none := by
  simp [fresh, Option.filter_some]

def charge (limit : WindowLimit) (slot : Option (Nat × Nat)) (call : LimitCall) : Bool × (Nat × Nat) :=
  let (start, used) := (fresh (max limit.window 1) call.nowSecs slot).getD (call.nowSecs, 0)
  let usedAfter := WindowCounter.saturatingAdd used call.kind.amount
  if usedAfter ≤ limit.amount then (true, (start, usedAfter)) else (false, (start, used))

def slotOf (counter : Option WindowCounter) : Option (Nat × Nat) :=
  counter.bind fun counter => counter.windowStartSecs.map fun start => (start, counter.used)

variable {counters : Counters} {limit : WindowLimit} {scope : LimitScope} {slot : Option (Nat × Nat)} {call : LimitCall}
  {low : Nat}

def Keeps (limit : WindowLimit) (counters : Counters) (scope : LimitScope) (low : Nat) (slot : Option (Nat × Nat)) : Prop :=
  slotOf (counters scope) = slot ∨
    counters scope = none ∧ ∀ now, low ≤ now → fresh (max limit.window 1) now slot = none

theorem Keeps.later (keeps : Keeps limit counters scope low slot) {now : Nat} (later : low ≤ now) :
    Keeps limit counters scope now slot :=
  keeps.imp_right fun pruned => ⟨pruned.1, fun time after => pruned.2 time (later.trans after)⟩

theorem Keeps.prune (keeps : Keeps limit counters scope low slot) :
    Keeps limit (counters.pruneStaleScopes low limit.window) scope low slot := by
  rcases keeps with same | ⟨missing, stale⟩
  · cases found : counters scope with
    | none => exact Or.inl (by simp [pruneStaleScopes, found, ← same])
    | some counter =>
      by_cases kept : counter.windowStartSecs.any (fun start => decide (low - start ≤ max limit.window 1)) = true
      · exact Or.inl (by rw [← same, pruneStaleScopes, found, Option.filter_some, if_pos kept])
      · refine Or.inr ⟨by rw [pruneStaleScopes, found, Option.filter_some, if_neg kept], fun now later => ?_⟩
        rw [← same, found]
        cases started : counter.windowStartSecs with
        | none => simp [slotOf, started, fresh]
        | some start =>
          rw [started, Option.any_some, decide_eq_true_eq] at kept
          have slot_eq : slotOf (some counter) = some (start, counter.used) := by simp [slotOf, started]
          rw [slot_eq, fresh_some, if_neg (by omega)]
  · exact Or.inr ⟨by simp [pruneStaleScopes, missing], stale⟩

theorem Keeps.other (keeps : Keeps limit counters scope low slot) (later : low ≤ call.nowSecs) (different : call.scope ≠ scope) :
    Keeps limit (counters.consumeForScope (some limit) call.scope call.kind call.nowSecs).2 scope call.nowSecs slot := by
  have pruned := (keeps.later later).prune
  rw [consumeForScope_eq]
  simpa only [Keeps, Function.update_of_ne different.symm] using pruned

theorem consume_eq_charge (call : LimitCall) (counter : WindowCounter) (own : counter.limit = some limit) (slot : Option (Nat × Nat))
    (same : fresh (max limit.window 1) call.nowSecs (slotOf (some counter)) = fresh (max limit.window 1) call.nowSecs slot)
    (unused : counter.windowStartSecs = none → counter.used = 0) :
    decide ((counter.consume call.scope call.kind call.nowSecs).1 = .ok ()) = (charge limit slot call).1 ∧
      slotOf (some (counter.consume call.scope call.kind call.nowSecs).2) = some (charge limit slot call).2 := by
  obtain ⟨known, used, started⟩ := counter
  obtain rfl : known = some limit := own
  have window : (WindowCounter.mk (some limit) used started).inWindow (max limit.window 1) call.nowSecs =
      (let window := (fresh (max limit.window 1) call.nowSecs slot).getD (call.nowSecs, 0)
       (WindowCounter.mk (some limit) window.2 (some window.1), window.1)) := by
    rw [← same]
    cases started with
    | none =>
      obtain rfl : used = 0 := unused rfl
      rfl
    | some start =>
      have slot_eq : slotOf (some ⟨some limit, used, some start⟩) = some (start, used) := rfl
      rw [slot_eq, fresh_some, WindowCounter.inWindow]
      dsimp only
      by_cases ended : call.nowSecs - start ≥ max limit.window 1
      · rw [if_pos ended, if_neg (by omega)]
        rfl
      · rw [if_neg ended, if_pos (by omega)]
        rfl
  simp only [WindowCounter.consume, window, charge]
  by_cases fits : WindowCounter.saturatingAdd ((fresh (max limit.window 1) call.nowSecs slot).getD (call.nowSecs, 0)).2
      call.kind.amount ≤ limit.amount
  · rw [if_neg (by omega), if_pos fits]
    exact ⟨rfl, rfl⟩
  · rw [if_pos (by omega), if_neg fits]
    exact ⟨rfl, rfl⟩

def Started (counters : Counters) : Prop :=
  ∀ scope counter, counters scope = some counter → counter.windowStartSecs ≠ none

theorem unused_counterOf (started : counters.Started) (now : Nat)
    (none_ : (counters.counterOf limit scope now).windowStartSecs = none) : (counters.counterOf limit scope now).used = 0 := by
  unfold counterOf at none_ ⊢
  cases kept : counters.pruneStaleScopes now limit.window scope with
  | none => rfl
  | some counter =>
    rw [kept] at none_
    exact absurd none_ (started _ _ (mem_pruned kept))

theorem started_consumeForScope (started : counters.Started) (made : counters.Made limit) (call : LimitCall) :
    (counters.consumeForScope (some limit) call.scope call.kind call.nowSecs).2.Started := by
  intro other counter found
  rw [consumeForScope_eq] at found
  dsimp only at found
  by_cases same : other = call.scope
  · rw [same, Function.update_self, Option.some.injEq] at found
    intro none_
    have next := (consume_eq_charge call (counters.counterOf limit call.scope call.nowSecs) (limit_counterOf made) _ rfl
      (unused_counterOf started call.nowSecs)).2
    rw [found] at next
    simp [slotOf, none_] at next
  · rw [Function.update_of_ne same] at found
    exact started other counter (mem_pruned found)

theorem Keeps.own (keeps : Keeps limit counters call.scope low slot) (later : low ≤ call.nowSecs)
    (made : counters.Made limit) (started : counters.Started) :
    decide ((counters.consumeForScope (some limit) call.scope call.kind call.nowSecs).1 = .ok ()) =
        (charge limit slot call).1 ∧
      Keeps limit (counters.consumeForScope (some limit) call.scope call.kind call.nowSecs).2 call.scope call.nowSecs
        (some (charge limit slot call).2) := by
  have pruned := (keeps.later later).prune
  have same : fresh (max limit.window 1) call.nowSecs (slotOf (some (counters.counterOf limit call.scope call.nowSecs))) =
      fresh (max limit.window 1) call.nowSecs slot := by
    unfold counterOf
    rcases pruned with same | ⟨missing, stale⟩
    · cases kept : counters.pruneStaleScopes call.nowSecs limit.window call.scope with
      | none => rw [← same, kept]; rfl
      | some counter => rw [← same, kept]; rfl
    · rw [missing, stale _ le_rfl]
      rfl
  obtain ⟨decided, next⟩ := consume_eq_charge call _ (limit_counterOf made) slot same (unused_counterOf started call.nowSecs)
  rw [consumeForScope_eq]
  refine ⟨decided, Or.inl ?_⟩
  dsimp only
  rw [Function.update_self, next]

end Slot

section Runs

variable {counters : Counters} {limit : WindowLimit} {scope : LimitScope} {slot : Option (Nat × Nat)}

def charges (limit : WindowLimit) : Option (Nat × Nat) → List LimitCall → List (LimitCall × Bool)
  | _, [] => []
  | slot, call :: calls => (call, (charge limit slot call).1) :: charges limit (some (charge limit slot call).2) calls

def afterCharges (limit : WindowLimit) (slot : Option (Nat × Nat)) (calls : List LimitCall) : Option (Nat × Nat) :=
  calls.foldl (fun slot call => some (charge limit slot call).2) slot

def Ordered (calls : List LimitCall) : Prop := (calls.map LimitCall.nowSecs).Pairwise (· ≤ ·)

theorem outcomes_calls (limit : WindowLimit) (counters : Counters) (calls : List LimitCall) :
    (outcomes limit counters calls).map Prod.fst = calls := by
  induction calls generalizing counters with
  | nil => rfl
  | cons call calls ih => exact congrArg _ (ih _)

theorem outcomes_scope (scope : LimitScope) (made : counters.Made limit) (started : counters.Started) {low : Nat}
    (keeps : Keeps limit counters scope low slot) (calls : List LimitCall) (ordered : Ordered calls)
    (after : ∀ call ∈ calls, low ≤ call.nowSecs) :
    (outcomes limit counters calls).filter (fun outcome => decide (outcome.1.scope = scope)) =
        charges limit slot (calls.filter fun call => decide (call.scope = scope)) ∧
      ∃ last, Keeps limit (afterCalls limit counters calls) scope last
        (afterCharges limit slot (calls.filter fun call => decide (call.scope = scope))) := by
  induction calls generalizing counters slot low with
  | nil => exact ⟨rfl, low, keeps⟩
  | cons call calls ih =>
    rw [List.forall_mem_cons] at after
    rw [Ordered, List.map_cons, List.pairwise_cons] at ordered
    have later : ∀ other ∈ calls, call.nowSecs ≤ other.nowSecs :=
      fun other member => ordered.1 _ (List.mem_map_of_mem member)
    have made_next := made_consumeForScope made call.scope call.kind call.nowSecs
    have started_next := started_consumeForScope started made call
    by_cases same : call.scope = scope
    · subst same
      obtain ⟨decided, kept⟩ := keeps.own after.1 made started
      obtain ⟨others, last, ends⟩ := ih made_next started_next kept ordered.2 later
      rw [List.filter_cons_of_pos (by simp), outcomes, List.filter_cons_of_pos (by simp), others, decided]
      exact ⟨rfl, last, ends⟩
    · obtain ⟨others, last, ends⟩ := ih made_next started_next (keeps.other after.1 same) ordered.2 later
      rw [List.filter_cons_of_neg (by simpa using same), outcomes, List.filter_cons_of_neg (by simpa using same), others]
      exact ⟨rfl, last, ends⟩

end Runs

section Bounds

variable {limit : WindowLimit} {slot : Option (Nat × Nat)}

def spent (past : List (Nat × Nat)) (within : Nat → Prop) [DecidablePred within] : Nat :=
  ((past.filter fun grant => within grant.1).map Prod.snd).sum

theorem spent_append (past more : List (Nat × Nat)) (within : Nat → Prop) [DecidablePred within] :
    spent (past ++ more) within = spent past within + spent more within := by
  simp [spent]

theorem spent_single (now amount : Nat) (within : Nat → Prop) [DecidablePred within] :
    spent [(now, amount)] within = if within now then amount else 0 := by
  by_cases inside : within now <;> simp [spent, inside]

theorem spent_le (past : List (Nat × Nat)) {first second third : Nat → Prop} [DecidablePred first] [DecidablePred second]
    [DecidablePred third] (split : ∀ grant ∈ past, first grant.1 → second grant.1 ∨ third grant.1) :
    spent past first ≤ spent past second + spent past third := by
  induction past with
  | nil => simp [spent]
  | cons grant past ih =>
    rw [List.forall_mem_cons] at split
    have rest := ih split.2
    have here := split.1
    rw [← List.singleton_append, spent_append, spent_append, spent_append, spent_single, spent_single, spent_single]
    split_ifs <;> first | omega | tauto

structure Account (limit : WindowLimit) (past : List (Nat × Nat)) (start used : Nat) : Prop where
  latest : ∀ grant ∈ past, grant.1 < start + max limit.window 1
  present : spent past (start ≤ ·) = used
  small : used ≤ limit.amount
  -- the windows before the present one that a sliding window can still reach
  behind : spent past (fun now => now < start ∧ start < now + max limit.window 1) ≤ limit.amount
  sliding : ∀ low, spent past (fun now => low ≤ now ∧ now < low + max limit.window 1) ≤ 2 * limit.amount

theorem Account.first (limit : WindowLimit) (start : Nat) : Account limit [] start 0 :=
  ⟨by simp, by simp [spent], Nat.zero_le _, by simp [spent], fun low => by simp [spent]⟩

variable {past : List (Nat × Nat)} {start used now amount : Nat}

theorem Account.grant (account : Account limit past start used) (inside : start ≤ now)
    (current : now < start + max limit.window 1) (fits : used + amount ≤ limit.amount) :
    Account limit (past ++ [(now, amount)]) start (used + amount) := by
  have present : spent (past ++ [(now, amount)]) (start ≤ ·) = used + amount := by
    rw [spent_append, spent_single, if_pos inside, account.present]
  have behind : spent (past ++ [(now, amount)]) (fun time => time < start ∧ start < time + max limit.window 1) ≤
      limit.amount := by
    rw [spent_append, spent_single, if_neg (by omega), add_zero]
    exact account.behind
  have latest : ∀ grant ∈ past ++ [(now, amount)], grant.1 < start + max limit.window 1 := by
    intro grant member
    rcases List.mem_append.mp member with old | new
    · exact account.latest grant old
    · obtain rfl := List.mem_singleton.mp new
      exact current
  refine ⟨latest, present, fits, behind, fun low => ?_⟩
  by_cases reaches : start < low + max limit.window 1
  · -- a sliding window that reaches the present one has nothing of those before the last
    have parts : spent (past ++ [(now, amount)]) (fun time => low ≤ time ∧ time < low + max limit.window 1) ≤
        spent (past ++ [(now, amount)]) (start ≤ ·) +
          spent (past ++ [(now, amount)]) (fun time => time < start ∧ start < time + max limit.window 1) :=
      spent_le _ fun grant _ within => by omega
    omega
  · rw [spent_append, spent_single, if_neg (by omega), add_zero]
    exact account.sliding low

theorem Account.renew (account : Account limit past start used) (ended : start + max limit.window 1 ≤ now) :
    Account limit past now 0 := by
  have present : spent past (now ≤ ·) = 0 := by
    have none_ : past.filter (fun grant => decide (now ≤ grant.1)) = [] := by
      rw [List.filter_eq_nil_iff]
      intro grant member
      have early := account.latest grant member
      simp only [decide_eq_true_eq]
      omega
    simp [spent, none_]
  have latest : ∀ grant ∈ past, grant.1 < now + max limit.window 1 := by
    intro grant member
    have early := account.latest grant member
    omega
  refine ⟨latest, present, Nat.zero_le _, ?_, account.sliding⟩
  have parts : spent past (fun time => time < now ∧ now < time + max limit.window 1) ≤
      spent past (start ≤ ·) + spent past (fun _ => False) := spent_le past fun grant _ within => by omega
  have nothing : spent past (fun _ => False) = 0 := by simp [spent]
  have small := account.small
  have used_eq := account.present
  omega

def Accounted (limit : WindowLimit) (low : Nat) (past : List (Nat × Nat)) : Option (Nat × Nat) → Prop
  | none => past = []
  | some (start, used) => Account limit past start used ∧ start ≤ low

def grantsOf (outcomes : List (LimitCall × Bool)) : List (Nat × Nat) :=
  (outcomes.filter Prod.snd).map fun outcome => (outcome.1.nowSecs, outcome.1.kind.amount)

theorem Accounted.charge {low : Nat} (accounted : Accounted limit low past slot) (exact_ : limit.amount < 2 ^ 64 - 1)
    (call : LimitCall) (later : low ≤ call.nowSecs) :
    Accounted limit call.nowSecs (past ++ grantsOf [(call, (charge limit slot call).1)]) (some (charge limit slot call).2) := by
  obtain ⟨start, used, opened, account, inside, current⟩ : ∃ start used,
      (fresh (max limit.window 1) call.nowSecs slot).getD (call.nowSecs, 0) = (start, used) ∧
        Account limit past start used ∧ start ≤ call.nowSecs ∧ call.nowSecs < start + max limit.window 1 := by
    cases slot with
    | none =>
      obtain rfl : past = [] := accounted
      exact ⟨_, _, rfl, Account.first limit _, le_rfl, by omega⟩
    | some window =>
      obtain ⟨start, used⟩ := window
      obtain ⟨account, early⟩ := accounted
      rw [fresh_some]
      by_cases current : call.nowSecs - start < max limit.window 1
      · exact ⟨start, used, by rw [if_pos current]; rfl, account, early.trans later, by omega⟩
      · exact ⟨_, _, by rw [if_neg current]; rfl, account.renew (by omega), le_rfl, by omega⟩
  simp only [Counters.charge, opened]
  by_cases fits : WindowCounter.saturatingAdd used call.kind.amount ≤ limit.amount
  · have sum : WindowCounter.saturatingAdd used call.kind.amount = used + call.kind.amount := by
      unfold WindowCounter.saturatingAdd at fits ⊢
      omega
    rw [if_pos fits, sum]
    exact ⟨account.grant inside current (sum ▸ fits), inside⟩
  · rw [if_neg fits]
    rw [show grantsOf [(call, false)] = [] from rfl, List.append_nil]
    exact ⟨account, inside⟩

theorem accounted_charges (exact_ : limit.amount < 2 ^ 64 - 1) (calls : List LimitCall) (ordered : Ordered calls) {low : Nat}
    (after : ∀ call ∈ calls, low ≤ call.nowSecs) (accounted : Accounted limit low past slot) :
    ∃ last, Accounted limit last (past ++ grantsOf (charges limit slot calls)) (afterCharges limit slot calls) := by
  induction calls generalizing past slot low with
  | nil => exact ⟨low, by rwa [show grantsOf (charges limit slot []) = [] from rfl, List.append_nil]⟩
  | cons call calls ih =>
    rw [List.forall_mem_cons] at after
    rw [Ordered, List.map_cons, List.pairwise_cons] at ordered
    have next := accounted.charge exact_ call after.1
    obtain ⟨last, ends⟩ := ih ordered.2 (fun other member => ordered.1 _ (List.mem_map_of_mem member)) next
    refine ⟨last, ?_⟩
    have split : grantsOf (charges limit slot (call :: calls)) = grantsOf [(call, (Counters.charge limit slot call).1)] ++
        grantsOf (charges limit (some (Counters.charge limit slot call).2) calls) := by
      simp only [charges, grantsOf, ← List.map_append, ← List.filter_append, List.singleton_append]
    rw [split, ← List.append_assoc]
    exact ends

theorem granted_eq_spent (outcomes : List (LimitCall × Bool)) (scope : LimitScope) (within : Nat → Prop)
    [DecidablePred within] :
    granted outcomes scope within =
      spent (grantsOf (outcomes.filter fun outcome => decide (outcome.1.scope = scope))) within := by
  induction outcomes with
  | nil => rfl
  | cons outcome outcomes ih =>
    obtain ⟨call, accepted⟩ := outcome
    have split (more : List (LimitCall × Bool)) : granted ((call, accepted) :: more) scope within =
        granted [(call, accepted)] scope within + granted more scope within := by
      simp only [granted, ← List.sum_append, ← List.map_append, ← List.filter_append, List.singleton_append]
    rw [split, ih]
    by_cases same : call.scope = scope
    · cases accepted <;> by_cases inside : within call.nowSecs <;> simp [granted, grantsOf, spent, same, inside]
    · simp [granted, same]

end Bounds

section Limits

variable {limit : WindowLimit}

theorem outcomes_own (limit : WindowLimit) (calls : List LimitCall) (ordered : Ordered calls) (scope : LimitScope) :
    (outcomes limit (fun _ => none) calls).filter (fun outcome => decide (outcome.1.scope = scope)) =
        charges limit none (calls.filter fun call => decide (call.scope = scope)) ∧
      ∃ last, Keeps limit (afterCalls limit (fun _ => none) calls) scope last
        (afterCharges limit none (calls.filter fun call => decide (call.scope = scope))) :=
  outcomes_scope scope (by rintro _ _ ⟨⟩) (by rintro _ _ ⟨⟩) (Or.inl rfl) calls ordered fun _ _ => Nat.zero_le _

theorem enforced_of_small (exact_ : limit.amount < 2 ^ 64 - 1) (calls : List LimitCall) (ordered : Ordered calls) :
    Enforced limit calls := by
  have filtered (scope : LimitScope) : Ordered (calls.filter fun call => decide (call.scope = scope)) :=
    ordered.sublist (List.filter_sublist.map _)
  have accounts (scope : LimitScope) : ∃ last, Accounted limit last
      (grantsOf (charges limit none (calls.filter fun call => decide (call.scope = scope))))
      (afterCharges limit none (calls.filter fun call => decide (call.scope = scope))) :=
    accounted_charges exact_ _ (filtered scope) (fun _ _ => Nat.zero_le _) (show Accounted limit 0 [] none from rfl)
  refine ⟨fun scope start => ?_, fun scope counter start found begun => ?_, fun scope => ?_⟩
  · rw [granted_eq_spent, (outcomes_own limit calls ordered scope).1]
    obtain ⟨last, accounted⟩ := accounts scope
    cases slot : afterCharges limit none (calls.filter fun call => decide (call.scope = scope)) with
    | none =>
      rw [slot] at accounted
      rw [show grantsOf _ = [] from accounted]
      exact Nat.zero_le _
    | some window =>
      rw [slot] at accounted
      exact accounted.1.sliding start
  · rw [granted_eq_spent, (outcomes_own limit calls ordered scope).1]
    obtain ⟨last, accounted⟩ := accounts scope
    obtain ⟨_, same | ⟨missing, _⟩⟩ := (outcomes_own limit calls ordered scope).2
    · have slot : slotOf (afterCalls limit (fun _ => none) calls scope) = some (start, counter.used) := by
        simp [slotOf, found, begun]
      rw [← same, slot] at accounted
      rw [accounted.1.present]
      exact accounted.1.small
    · rw [missing] at found
      cases found
  · have alone : (calls.filter fun call => decide (call.scope = scope)).filter (fun call => decide (call.scope = scope)) =
        calls.filter fun call => decide (call.scope = scope) := by simp
    have whole : (outcomes limit (fun _ => none) (calls.filter fun call => decide (call.scope = scope))).filter
        (fun outcome => decide (outcome.1.scope = scope)) =
        outcomes limit (fun _ => none) (calls.filter fun call => decide (call.scope = scope)) := by
      rw [List.filter_eq_self]
      intro outcome member
      have called : outcome.1 ∈ calls.filter fun call => decide (call.scope = scope) := by
        rw [← outcomes_calls limit (fun _ => none) (calls.filter fun call => decide (call.scope = scope))]
        exact List.mem_map_of_mem member
      exact (List.mem_filter.mp called).2
    rw [← whole, (outcomes_own limit calls ordered scope).1, (outcomes_own limit _ (filtered scope) scope).1, alone]

theorem charge_greatest (greatest : 2 ^ 64 - 1 ≤ limit.amount) (slot : Option (Nat × Nat)) (call : LimitCall) :
    (charge limit slot call).1 = true := by
  have fits (used : Nat) : WindowCounter.saturatingAdd used call.kind.amount ≤ limit.amount :=
    (Nat.min_le_right _ _).trans greatest
  simp only [charge, if_pos (fits _)]

def greedy : LimitCall := { scope := .globalFallback, kind := .ingressBytes (2 ^ 64 - 1), nowSecs := 0 }

/-- A limit holds in every run exactly if its amount is not the greatest number of the counter. -/
theorem enforced_iff (limit : WindowLimit) (typed : limit.amount < 2 ^ 64) :
    (∀ calls, Ordered calls → Enforced limit calls) ↔ limit.amount < 2 ^ 64 - 1 := by
  constructor
  · intro enforced
    by_contra greatest
    have ordered : Ordered [greedy, greedy, greedy] := by simp [Ordered]
    have bound := (enforced _ ordered).sliding .globalFallback 0
    rw [granted_eq_spent, (outcomes_own limit _ ordered .globalFallback).1] at bound
    have own : [greedy, greedy, greedy].filter (fun call => decide (call.scope = .globalFallback)) =
        [greedy, greedy, greedy] := by decide
    simp only [own, charges, charge_greatest (not_lt.mp greatest)] at bound
    have inside : 0 ≤ greedy.nowSecs ∧ greedy.nowSecs < 0 + max limit.window 1 := ⟨le_rfl, by simp [greedy]⟩
    have total : spent (grantsOf [(greedy, true), (greedy, true), (greedy, true)])
        (fun now => 0 ≤ now ∧ now < 0 + max limit.window 1) = 3 * (2 ^ 64 - 1) := by
      change spent ([(greedy.nowSecs, 2 ^ 64 - 1)] ++ ([(greedy.nowSecs, 2 ^ 64 - 1)] ++ [(greedy.nowSecs, 2 ^ 64 - 1)])) _ = _
      rw [spent_append, spent_append, spent_single, if_pos inside]
      rfl
    omega
  · exact fun exact_ calls ordered => enforced_of_small exact_ calls ordered

theorem enforced_ten : Enforced { amount := 10, window := 60 } [{ greedy with kind := .apiRequests 10 }, greedy] :=
  (enforced_iff { amount := 10, window := 60 } (by decide)).mpr (by decide) _ (by simp [Ordered, greedy])

theorem greatest_exceeded :
    granted (outcomes { amount := 2 ^ 64 - 1, window := 60 } (fun _ => none) [greedy, greedy, greedy]) .globalFallback
      (fun now => 0 ≤ now ∧ now < 60) = 3 * (2 ^ 64 - 1) := by
  decide +kernel

end Limits

end Counters

end ReductStore
