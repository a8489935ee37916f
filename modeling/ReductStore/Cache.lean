import Mathlib

set_option autoImplicit false

namespace ReductStore.Caching

structure ExpiringValue (V : Type) where
  value : V
  lastAccess : Nat
  deriving DecidableEq

structure Arrangement (α : Type) where
  order : List α → List α
  perm : ∀ entries, (order entries).Perm entries

structure Cache (K V : Type) where
  store : List (K × ExpiringValue V)
  size : Nat
  ttl : Nat

/-- `get` and `get_mut` are one call. The clock is read once for each entry that is checked or touched. -/
inductive CacheCall (K V : Type) where
  | insert (key : K) (value : V) (created : Nat) (now : K → Nat) (arrangement : Arrangement (K × ExpiringValue V))
  | get (key : K) (now : Nat)
  | values (now : K → Nat)
  | remove (key : K)
  | discardExpired (now : K → Nat)
  | clear

namespace Cache

variable {K V : Type} [DecidableEq K]

def get (cache : Cache K V) (key : K) (now : Nat) : Option V × Cache K V :=
  ((cache.store.find? (·.1 = key)).map (·.2.value),
    { cache with store := cache.store.map fun entry =>
        if entry.1 = key then (entry.1, { entry.2 with lastAccess := now }) else entry })

def remove (cache : Cache K V) (key : K) : Option V × Cache K V :=
  ((cache.store.find? (·.1 = key)).map (·.2.value), { cache with store := cache.store.filter (·.1 ≠ key) })

omit [DecidableEq K] in
def pairs (store : List (K × ExpiringValue V)) : List (K × V) := store.map fun entry => (entry.1, entry.2.value)

omit [DecidableEq K] in
def isStale (cache : Cache K V) (now : K → Nat) (entry : K × ExpiringValue V) : Bool :=
  decide (cache.ttl < now entry.1 - entry.2.lastAccess)

def oldest (store : List (K × ExpiringValue V)) : Option (K × Nat) :=
  store.foldl (fun oldest entry =>
    match oldest with
    | none => some (entry.1, entry.2.lastAccess)
    | some (_, time) => if entry.2.lastAccess < time then some (entry.1, entry.2.lastAccess) else oldest) none

def discardOldDescriptors (cache : Cache K V) (now : K → Nat) : List (K × V) × Cache K V :=
  let expired := pairs (cache.store.filter (cache.isStale now))
  let cache := { cache with store := cache.store.filter (! cache.isStale now ·) }
  if cache.store.length > cache.size then
    match oldest cache.store with
    | none => (expired, cache)
    | some (key, _) => (expired ++ ((cache.remove key).1.map (key, ·)).toList, (cache.remove key).2)
  else (expired, cache)

def placed (cache : Cache K V) (key : K) (value : V) (created : Nat) (arrangement : Arrangement (K × ExpiringValue V)) :
    Cache K V :=
  { cache with store := arrangement.order ((key, { value, lastAccess := created }) :: cache.store.filter (·.1 ≠ key)) }

def insert (cache : Cache K V) (key : K) (value : V) (created : Nat) (now : K → Nat)
    (arrangement : Arrangement (K × ExpiringValue V)) : List (K × V) × Cache K V :=
  (cache.placed key value created arrangement).discardOldDescriptors now

omit [DecidableEq K] in
def touchAll (cache : Cache K V) (now : K → Nat) : Cache K V :=
  { cache with store := cache.store.map fun entry => (entry.1, { entry.2 with lastAccess := now entry.1 }) }

section Stores

variable {store : List (K × ExpiringValue V)}

omit [DecidableEq K] in
theorem pairs_perm {left right : List (K × ExpiringValue V)} (same : left.Perm right) : (pairs left).Perm (pairs right) :=
  same.map _

omit [DecidableEq K] in
@[simp] theorem pairs_append (left right : List (K × ExpiringValue V)) : pairs (left ++ right) = pairs left ++ pairs right :=
  List.map_append

omit [DecidableEq K] in
@[simp] theorem pairs_cons (entry : K × ExpiringValue V) (rest : List (K × ExpiringValue V)) :
    pairs (entry :: rest) = (entry.1, entry.2.value) :: pairs rest := rfl

omit [DecidableEq K] in
@[simp] theorem pairs_toList (entry : Option (K × ExpiringValue V)) :
    pairs entry.toList = (entry.map fun entry => (entry.1, entry.2.value)).toList := by
  cases entry <;> rfl

theorem perm_split (distinct : (store.map Prod.fst).Nodup) (key : K) :
    store.Perm ((store.find? (·.1 = key)).toList ++ store.filter (·.1 ≠ key)) := by
  induction store with
  | nil => exact List.Perm.refl _
  | cons entry rest ih =>
    rw [List.map_cons, List.nodup_cons] at distinct
    by_cases same : entry.1 = key
    · have others : rest.filter (·.1 ≠ key) = rest := by
        refine List.filter_eq_self.mpr fun other member => ?_
        have apart : other.1 ≠ entry.1 := fun equal => distinct.1 (equal ▸ List.mem_map_of_mem member)
        simpa [← same] using apart
      rw [List.find?_cons_of_pos (by simpa using same), List.filter_cons_of_neg (by simpa using same), others]
      exact List.Perm.refl _
    · rw [List.find?_cons_of_neg (by simpa using same), List.filter_cons_of_pos (by simpa using same)]
      exact ((ih distinct.2).cons entry).trans List.perm_middle.symm

theorem find_member (distinct : (store.map Prod.fst).Nodup) {entry : K × ExpiringValue V} (member : entry ∈ store) :
    store.find? (·.1 = entry.1) = some entry := by
  cases found : store.find? (·.1 = entry.1) with
  | none => exact absurd (List.find?_eq_none.mp found entry member) (by simp)
  | some other =>
    have key : other.1 = entry.1 := by simpa using List.find?_some found
    rw [List.inj_on_of_nodup_map distinct (List.mem_of_find?_eq_some found) member key]

omit [DecidableEq K] in
theorem oldest_cons (entry : K × ExpiringValue V) (rest : List (K × ExpiringValue V)) :
    ∃ found, oldest (entry :: rest) = some (found.1, found.2.lastAccess) ∧ found ∈ entry :: rest ∧
      ∀ other ∈ entry :: rest, found.2.lastAccess ≤ other.2.lastAccess := by
  -- The fold keeps the entry with the least time among those before.
  induction rest using List.reverseRecOn with
  | nil => exact ⟨entry, rfl, by simp, by simp⟩
  | append_singleton front last ih =>
    obtain ⟨found, least, member, bound⟩ := ih
    have fold : oldest (entry :: (front ++ [last])) =
        if last.2.lastAccess < found.2.lastAccess then some (last.1, last.2.lastAccess)
        else some (found.1, found.2.lastAccess) := by
      rw [← List.cons_append, oldest, List.foldl_append, ← oldest, least]
      rfl
    rw [← List.cons_append]
    by_cases later : last.2.lastAccess < found.2.lastAccess
    · refine ⟨last, by rw [List.cons_append, fold, if_pos later], by simp, fun other present => ?_⟩
      rcases List.mem_append.mp present with early | rest
      · exact later.le.trans (bound other early)
      · rw [List.mem_singleton.mp rest]
    · refine ⟨found, by rw [List.cons_append, fold, if_neg later], List.mem_append_left _ member, fun other present => ?_⟩
      rcases List.mem_append.mp present with early | rest
      · exact bound other early
      · rw [List.mem_singleton.mp rest]
        exact Nat.le_of_not_lt later

end Stores

section Discards

variable {cache : Cache K V} {now : K → Nat}

structure Discarded (cache : Cache K V) (now : K → Nat) (removed : List (K × V)) (after : Cache K V) : Prop where
  bounds : after.size = cache.size ∧ after.ttl = cache.ttl
  kept : after.store.Sublist cache.store
  whole : (pairs cache.store).Perm (removed ++ pairs after.store)
  short : cache.store.length ≤ cache.size + 1 → after.store.length ≤ cache.size
  least : ∀ entry ∈ cache.store, entry.1 ∈ removed.map Prod.fst → cache.isStale now entry = false →
    ∀ other ∈ after.store, entry.2.lastAccess ≤ other.2.lastAccess

omit [DecidableEq K] in
theorem perm_stale : (pairs cache.store).Perm
    (pairs (cache.store.filter (cache.isStale now)) ++ pairs (cache.store.filter (! cache.isStale now ·))) := by
  rw [← pairs_append]
  exact pairs_perm (List.filter_append_perm _ _).symm

omit [DecidableEq K] in
theorem stale_of_expired (distinct : (cache.store.map Prod.fst).Nodup) {entry : K × ExpiringValue V}
    (member : entry ∈ cache.store) (expired : entry.1 ∈ (pairs (cache.store.filter (cache.isStale now))).map Prod.fst) :
    cache.isStale now entry = true := by
  obtain ⟨_, listed, key⟩ := List.mem_map.mp expired
  obtain ⟨other, found, rfl⟩ := List.mem_map.mp listed
  obtain ⟨present, stale⟩ := List.mem_filter.mp found
  rwa [← List.inj_on_of_nodup_map distinct present member key]

theorem discard_within (fits : cache.store.length ≤ cache.size) :
    cache.discardOldDescriptors now = (pairs (cache.store.filter (cache.isStale now)),
      { cache with store := cache.store.filter (! cache.isStale now ·) }) := by
  have short := List.length_filter_le (! cache.isStale now ·) cache.store
  rw [discardOldDescriptors, if_neg]
  simp only
  omega

theorem discardOldDescriptors_sublist (cache : Cache K V) (now : K → Nat) :
    (cache.discardOldDescriptors now).2.store.Sublist cache.store := by
  unfold discardOldDescriptors
  simp only
  split_ifs
  · split
    · exact List.filter_sublist
    · exact List.filter_sublist.trans List.filter_sublist
  · exact List.filter_sublist

theorem discardOldDescriptors_discarded (distinct : (cache.store.map Prod.fst).Nodup) :
    Discarded cache now (cache.discardOldDescriptors now).1 (cache.discardOldDescriptors now).2 := by
  have fresh : ∀ entry ∈ cache.store, entry.1 ∈ (pairs (cache.store.filter (cache.isStale now))).map Prod.fst →
      cache.isStale now entry = false → False := by
    intro entry member expired young
    rw [stale_of_expired distinct member expired] at young
    exact Bool.noConfusion young
  unfold discardOldDescriptors
  simp only
  generalize left : cache.store.filter (! cache.isStale now ·) = rest
  have part : rest.Sublist cache.store := left ▸ List.filter_sublist
  have whole : (pairs cache.store).Perm (pairs (cache.store.filter (cache.isStale now)) ++ pairs rest) := left ▸ perm_stale
  split_ifs with many
  · cases rest with
    | nil => exact absurd many (by simp)
    | cons head tail =>
      obtain ⟨found, least, member, bound⟩ := oldest_cons head tail
      have keys : ((head :: tail).map Prod.fst).Nodup := (part.map Prod.fst).nodup distinct
      have own := find_member keys member
      have split := perm_split keys found.1
      rw [own] at split
      simp only [least, remove, own, Option.map_some, Option.toList_some]
      refine ⟨⟨rfl, rfl⟩, List.filter_sublist.trans part, ?_, fun long => ?_, fun entry present gone young other kept => ?_⟩
      · rw [List.append_assoc]
        exact whole.trans ((pairs_perm split).append_left _)
      · have count := split.length_eq
        have total := part.length_le
        simp only [Option.toList_some, List.length_append, List.length_singleton] at count
        simp only
        omega
      · -- The entry is not among the expired ones, so it is the one that was accessed least recently.
        rw [List.map_append, List.mem_append] at gone
        rcases gone with expired | last
        · exact (fresh entry present expired young).elim
        · have same : entry.1 = found.1 := by simpa using last
          rw [List.inj_on_of_nodup_map distinct present (part.subset member) same]
          exact bound other (List.mem_filter.mp kept).1
  · refine ⟨⟨rfl, rfl⟩, part, whole, fun _ => Nat.le_of_not_lt many, ?_⟩
    intro entry present gone young
    exact (fresh entry present gone young).elim

end Discards

section Calls

variable {cache : Cache K V}

theorem placed_perm (key : K) (value : V) (created : Nat) (arrangement : Arrangement (K × ExpiringValue V)) :
    (cache.placed key value created arrangement).store.Perm
      ((key, { value, lastAccess := created }) :: cache.store.filter (·.1 ≠ key)) := arrangement.perm _

theorem placed_distinct (distinct : (cache.store.map Prod.fst).Nodup) (key : K) (value : V) (created : Nat)
    (arrangement : Arrangement (K × ExpiringValue V)) :
    ((cache.placed key value created arrangement).store.map Prod.fst).Nodup := by
  have others : (cache.store.filter (·.1 ≠ key)).Sublist cache.store := List.filter_sublist
  refine ((placed_perm key value created arrangement).map Prod.fst).nodup_iff.mpr ?_
  refine List.nodup_cons.mpr ⟨?_, (others.map Prod.fst).nodup distinct⟩
  simp

theorem pairs_get (key : K) (now : Nat) : pairs (cache.get key now).2.store = pairs cache.store := by
  simp only [get, pairs, List.map_map]
  refine List.map_congr_left fun entry _ => ?_
  dsimp only [Function.comp_apply]
  split_ifs <;> rfl

theorem mem_of_find {key : K} {value : V} (found : (cache.store.find? (·.1 = key)).map (·.2.value) = some value) :
    (key, value) ∈ pairs cache.store := by
  obtain ⟨entry, stored, rfl⟩ := Option.map_eq_some_iff.mp found
  have same : entry.1 = key := by simpa using List.find?_some stored
  exact List.mem_map.mpr ⟨entry, List.mem_of_find?_eq_some stored, by rw [same]⟩

theorem mem_of_mem_remove {key : K} {pair : K × V} (member : pair ∈ pairs (cache.remove key).2.store) :
    pair ∈ pairs cache.store := (List.filter_sublist.map _).subset member

theorem mem_of_mem_insert {key : K} {value : V} {created : Nat} {now : K → Nat}
    {arrangement : Arrangement (K × ExpiringValue V)} {pair : K × V}
    (member : pair ∈ pairs (cache.insert key value created now arrangement).2.store) :
    pair = (key, value) ∨ pair ∈ pairs cache.store := by
  have placed := ((discardOldDescriptors_sublist _ now).map _).subset member
  rw [← pairs, (pairs_perm (placed_perm key value created arrangement)).mem_iff, pairs_cons, List.mem_cons] at placed
  exact placed.imp id mem_of_mem_remove

omit [DecidableEq K] in
theorem keys_pairs (store : List (K × ExpiringValue V)) : (pairs store).map Prod.fst = store.map Prod.fst := by
  simp [pairs]

end Calls

end Cache

structure Ledger (K V : Type) where
  cache : Cache K V
  inserted : List (K × V) := []
  returned : List (K × V) := []
  overwritten : List (K × V) := []
  cleared : List (K × V) := []

namespace Ledger

variable {K V : Type} [DecidableEq K]

def start (size ttl : Nat) : Ledger K V := { cache := { store := [], size, ttl } }

def apply (ledger : Ledger K V) : CacheCall K V → Ledger K V
  | .insert key value created now arrangement =>
    let replaced := ((ledger.cache.store.find? (·.1 = key)).map fun entry => (entry.1, entry.2.value)).toList
    let (removed, cache) := ledger.cache.insert key value created now arrangement
    { ledger with
      cache
      inserted := (key, value) :: ledger.inserted
      returned := ledger.returned ++ removed
      overwritten := ledger.overwritten ++ replaced }
  | .get key now => { ledger with cache := (ledger.cache.get key now).2 }
  | .values now => { ledger with cache := ledger.cache.touchAll now }
  | .remove key =>
    let (value, cache) := ledger.cache.remove key
    { ledger with cache, returned := ledger.returned ++ (value.map (key, ·)).toList }
  | .discardExpired now =>
    let (removed, cache) := ledger.cache.discardOldDescriptors now
    { ledger with cache, returned := ledger.returned ++ removed }
  | .clear =>
    { ledger with
      cache := { ledger.cache with store := [] }
      cleared := ledger.cleared ++ Cache.pairs ledger.cache.store }

structure Balanced (size ttl : Nat) (ledger : Ledger K V) : Prop where
  bounds : ledger.cache.size = size ∧ ledger.cache.ttl = ttl
  distinct : (ledger.cache.store.map Prod.fst).Nodup
  within : ledger.cache.store.length ≤ size
  conserved : ledger.inserted.Perm
    (Cache.pairs ledger.cache.store ++ (ledger.returned ++ (ledger.overwritten ++ ledger.cleared)))

section Steps

variable {size ttl : Nat} {ledger : Ledger K V}

omit [DecidableEq K] in
theorem balanced_start : (start size ttl : Ledger K V).Balanced size ttl :=
  ⟨⟨rfl, rfl⟩, List.nodup_nil, Nat.zero_le _, List.Perm.refl _⟩

omit [DecidableEq K] in
theorem Balanced.touched (balanced : ledger.Balanced size ttl) {cache : Cache K V}
    (bounds : cache.size = ledger.cache.size ∧ cache.ttl = ledger.cache.ttl)
    (same : Cache.pairs cache.store = Cache.pairs ledger.cache.store) : { ledger with cache }.Balanced size ttl := by
  have count : cache.store.length = ledger.cache.store.length := by
    simpa [Cache.pairs] using congrArg List.length same
  exact
    { bounds := ⟨bounds.1.trans balanced.bounds.1, bounds.2.trans balanced.bounds.2⟩
      distinct := by simpa only [← Cache.keys_pairs, same] using balanced.distinct
      within := count ▸ balanced.within
      conserved := by simpa only [same] using balanced.conserved }

theorem Balanced.insert (balanced : ledger.Balanced size ttl) (key : K) (value : V) (created : Nat) (now : K → Nat)
    (arrangement : Arrangement (K × ExpiringValue V)) :
    (ledger.apply (.insert key value created now arrangement)).Balanced size ttl := by
  classical
  have distinct := Cache.placed_distinct balanced.distinct key value created arrangement
  have order : (ledger.cache.placed key value created arrangement).store.Perm _ := Cache.placed_perm key value created arrangement
  have long : (ledger.cache.placed key value created arrangement).store.length ≤ size + 1 := by
    rw [order.length_eq, List.length_cons]
    exact Nat.succ_le_succ ((List.length_filter_le _ _).trans balanced.within)
  have content := Cache.pairs_perm order
  have discarded : Cache.Discarded _ now _ _ := Cache.discardOldDescriptors_discarded distinct
  have split := Cache.pairs_perm (Cache.perm_split balanced.distinct key)
  have limit : (ledger.cache.placed key value created arrangement).size = size := balanced.bounds.1
  refine ⟨?_, (discarded.kept.map Prod.fst).nodup distinct, ?_, ?_⟩
  · exact ⟨discarded.bounds.1.trans limit, discarded.bounds.2.trans balanced.bounds.2⟩
  · exact limit ▸ discarded.short (limit.symm ▸ long)
  · have whole := discarded.whole
    have conserved := balanced.conserved
    simp only [List.perm_iff_count, Cache.pairs_append, Cache.pairs_toList] at whole content split conserved
    refine List.perm_iff_count.mpr fun pair => ?_
    have here := whole pair
    have there := content pair
    have old := split pair
    have before := conserved pair
    simp only [apply, Cache.insert, Cache.pairs_cons, List.count_append, List.count_cons] at here there old before ⊢
    omega

theorem Balanced.remove (balanced : ledger.Balanced size ttl) (key : K) : (ledger.apply (.remove key)).Balanced size ttl := by
  classical
  have others : (ledger.cache.store.filter (·.1 ≠ key)).Sublist ledger.cache.store := List.filter_sublist
  have split := Cache.pairs_perm (Cache.perm_split balanced.distinct key)
  have own : (((ledger.cache.store.find? (·.1 = key)).map (·.2.value)).map (key, ·)).toList =
      Cache.pairs (ledger.cache.store.find? (·.1 = key)).toList := by
    cases found : ledger.cache.store.find? (·.1 = key) with
    | none => rfl
    | some entry =>
      have same : entry.1 = key := by simpa using List.find?_some found
      simp [Cache.pairs, same]
  refine ⟨balanced.bounds, (others.map Prod.fst).nodup balanced.distinct, others.length_le.trans balanced.within, ?_⟩
  have conserved := balanced.conserved
  simp only [List.perm_iff_count, Cache.pairs_append] at split conserved
  refine List.perm_iff_count.mpr fun pair => ?_
  have old := split pair
  have before := conserved pair
  simp only [apply, Cache.remove, own, List.count_append] at old before ⊢
  omega

theorem Balanced.discard (balanced : ledger.Balanced size ttl) (now : K → Nat) :
    (ledger.apply (.discardExpired now)).Balanced size ttl := by
  classical
  have discarded : Cache.Discarded _ now _ _ := Cache.discardOldDescriptors_discarded balanced.distinct
  refine ⟨?_, (discarded.kept.map Prod.fst).nodup balanced.distinct, discarded.kept.length_le.trans balanced.within, ?_⟩
  · exact ⟨discarded.bounds.1.trans balanced.bounds.1, discarded.bounds.2.trans balanced.bounds.2⟩
  · have whole := discarded.whole
    have conserved := balanced.conserved
    simp only [List.perm_iff_count] at whole conserved
    refine List.perm_iff_count.mpr fun pair => ?_
    have here := whole pair
    have before := conserved pair
    simp only [apply, List.count_append] at here before ⊢
    omega

theorem Balanced.clear (balanced : ledger.Balanced size ttl) : (ledger.apply .clear).Balanced size ttl := by
  classical
  refine ⟨balanced.bounds, List.nodup_nil, Nat.zero_le _, ?_⟩
  have conserved := balanced.conserved
  simp only [List.perm_iff_count] at conserved
  refine List.perm_iff_count.mpr fun pair => ?_
  have before := conserved pair
  simp only [apply, Cache.pairs, List.map_nil, List.count_append, List.nil_append] at before ⊢
  omega

theorem Balanced.apply (balanced : ledger.Balanced size ttl) (call : CacheCall K V) : (ledger.apply call).Balanced size ttl := by
  cases call with
  | insert key value created now arrangement => exact balanced.insert key value created now arrangement
  | get key now => exact balanced.touched ⟨rfl, rfl⟩ (Cache.pairs_get key now)
  | values now => exact balanced.touched ⟨rfl, rfl⟩ (by simp [Cache.touchAll, Cache.pairs, Function.comp_def])
  | remove key => exact balanced.remove key
  | discardExpired now => exact balanced.discard now
  | clear => exact balanced.clear

end Steps

def after (size ttl : Nat) (calls : List (CacheCall K V)) : Ledger K V := calls.foldl apply (start size ttl)

theorem balanced_after (size ttl : Nat) (calls : List (CacheCall K V)) : (after size ttl calls).Balanced size ttl := by
  induction calls using List.reverseRecOn with
  | nil => exact balanced_start
  | append_singleton earlier call ih =>
    rw [after, List.foldl_append]
    exact ih.apply call

/-- There are no more entries than allowed, and every inserted pair is in the cache or has left it once. An entry that is
    returned without being expired was accessed no later than each entry that stays. -/
theorem cache_conserved (size ttl : Nat) (calls : List (CacheCall K V)) :
    (after size ttl calls).cache.store.length ≤ size ∧
    (after size ttl calls).inserted.Perm (Cache.pairs (after size ttl calls).cache.store ++
      ((after size ttl calls).returned ++ ((after size ttl calls).overwritten ++ (after size ttl calls).cleared))) ∧
    ∀ key value created now arrangement,
      ∀ entry ∈ ((after size ttl calls).cache.placed key value created arrangement).store,
        entry.1 ∈ ((after size ttl calls).cache.insert key value created now arrangement).1.map Prod.fst →
        (after size ttl calls).cache.isStale now entry = false →
        ∀ other ∈ ((after size ttl calls).cache.insert key value created now arrangement).2.store,
          entry.2.lastAccess ≤ other.2.lastAccess := by
  have balanced := balanced_after size ttl calls
  refine ⟨balanced.within, balanced.conserved, fun key value created now arrangement => ?_⟩
  exact (Cache.discardOldDescriptors_discarded (Cache.placed_distinct balanced.distinct key value created arrangement)).least

end Ledger

end ReductStore.Caching
