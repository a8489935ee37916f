import ReductStore.Condition.MachineInt
import ReductStore.Storage.EntryInfo
import ReductStore.Storage.EntrySelection

set_option autoImplicit false

namespace ReductStore

open TreeMap Condition

inductive QuotaType where
  | none
  | fifo
  | hard
  deriving DecidableEq

structure QuotaSettings where
  quotaType : Option QuotaType
  quotaSize : Option Nat

structure QuotaBucket where
  name : String
  entries : List (List Char × BlockManager)
  distinct : (entries.map Prod.fst).Nodup

inductive QuotaOutcome where
  | ok
  | failed (failure : ReductError)
  | panicked
  deriving DecidableEq

def isEligibleForFifoEviction (entryName : List Char) : Bool := ! isSystemMetaEntry entryName

def BlockManager.tryRemoveOldestBlock [Codec] (manager : BlockManager) : Except ReductError BlockManager :=
  match manager.blockIndex.keys with
  | [] => .error (internalServerError "No block to remove")
  | oldest :: _ => .ok (manager.removeBlock oldest)

namespace QuotaBucket

def neededSize (build : Build) (bucket : QuotaBucket) (contentSize : Nat) : Option Nat :=
  (bucket.entries.foldl (fun total entry => total.bind (build.addU64 · entry.2.info.size)) (some 0)).bind
    (build.addU64 · contentSize)

def set (bucket : QuotaBucket) (name : List Char) (manager : BlockManager) : QuotaBucket :=
  { bucket with
    entries := bucket.entries.map fun entry => if entry.1 = name then (name, manager) else entry
    distinct := by
      have names : (bucket.entries.map fun entry => if entry.1 = name then (name, manager) else entry).map Prod.fst =
          bucket.entries.map Prod.fst := by
        rw [List.map_map]
        refine List.map_congr_left fun entry _ => ?_
        dsimp only [Function.comp_apply]
        split_ifs with same
        · exact same.symm
        · rfl
      rw [names]
      exact bucket.distinct }

def candidates (bucket : QuotaBucket) : List (List Char) :=
  ((bucket.entries.filter (isEligibleForFifoEviction ·.1)).insertionSort
    fun first second => first.2.info.oldestRecord ≤ second.2.info.oldestRecord).map Prod.fst

section Loop

variable [Codec]

def removeCandidate (bucket : QuotaBucket) : List (List Char) → Option QuotaBucket
  | [] => none
  | name :: rest =>
    match bucket.entries.find? (·.1 = name) with
    | none => removeCandidate bucket rest
    | some entry =>
      match entry.2.tryRemoveOldestBlock with
      | .ok manager => some (bucket.set name manager)
      | .error _ => removeCandidate bucket rest

def removeOldestBlock (build : Build) (contentSize quotaSize : Nat) : Nat → QuotaBucket → Option (QuotaOutcome × QuotaBucket)
  | 0, _ => none
  | fuel + 1, bucket =>
    match bucket.neededSize build contentSize with
    | none => some (.panicked, bucket)
    | some size =>
      if size > quotaSize then
        match bucket.removeCandidate bucket.candidates with
        | none => some (.failed (internalServerError ("Failed to keep quota of '" ++ bucket.name ++ "'")), bucket)
        | some smaller => removeOldestBlock build contentSize quotaSize fuel smaller
      else some (.ok, bucket)

def keepQuotaFor (build : Build) (settings : QuotaSettings) (contentSize fuel : Nat) (bucket : QuotaBucket) :
    Option (QuotaOutcome × QuotaBucket) :=
  let quotaSize := settings.quotaSize.getD 0
  match settings.quotaType.getD .none with
  | .none => some (.ok, bucket)
  | .fifo => removeOldestBlock build contentSize quotaSize fuel bucket
  | .hard =>
    match bucket.neededSize build contentSize with
    | none => some (.panicked, bucket)
    | some size =>
      if size > quotaSize then some (.failed (badRequest ("Quota of '" ++ bucket.name ++ "' exceeded")), bucket)
      else some (.ok, bucket)

end Loop

def total (measure : BlockManager → Nat) (bucket : QuotaBucket) : Nat := (bucket.entries.map fun entry => measure entry.2).sum

def size (bucket : QuotaBucket) : Nat := bucket.total (·.info.size)

def blockCount (bucket : QuotaBucket) : Nat := bucket.total (·.blockIndex.keys.length)

section Sums

variable {bucket : QuotaBucket}

theorem neededSize_fits (build : Build) {contentSize : Nat} (fits : bucket.size + contentSize < 2 ^ 64) :
    bucket.neededSize build contentSize = some (bucket.size + contentSize) := by
  have sum (entries : List (List Char × BlockManager)) (start : Nat)
      (small : start + (entries.map fun entry => entry.2.info.size).sum < 2 ^ 64) :
      entries.foldl (fun total entry => total.bind (build.addU64 · entry.2.info.size)) (some start) =
        some (start + (entries.map fun entry => entry.2.info.size).sum) := by
    induction entries generalizing start with
    | nil => rfl
    | cons entry rest ih =>
      rw [List.map_cons, List.sum_cons] at small ⊢
      rw [List.foldl_cons, Option.bind_some, Build.addU64_small (by omega), ih _ (by omega), Nat.add_assoc]
  have whole := sum bucket.entries 0 (by simp only [size, total] at fits; omega)
  rw [neededSize, whole, Option.bind_some, Nat.zero_add]
  exact Build.addU64_small fits build

theorem total_set (measure : BlockManager → Nat) {name : List Char} {old : BlockManager}
    (member : (name, old) ∈ bucket.entries) (manager : BlockManager) :
    (bucket.set name manager).total measure + measure old = bucket.total measure + measure manager := by
  have replaced (entries : List (List Char × BlockManager)) (distinct : (entries.map Prod.fst).Nodup)
      (present : (name, old) ∈ entries) :
      ((entries.map fun entry => if entry.1 = name then (name, manager) else entry).map fun entry => measure entry.2).sum +
        measure old = (entries.map fun entry => measure entry.2).sum + measure manager := by
    induction entries with
    | nil => cases present
    | cons entry rest ih =>
      rw [List.map_cons, List.nodup_cons] at distinct
      rcases List.mem_cons.mp present with rfl | later
      · have others : (rest.map fun entry => if entry.1 = name then (name, manager) else entry) = rest := by
          conv_rhs => rw [← List.map_id rest]
          refine List.map_congr_left fun other later => if_neg fun same => distinct.1 ?_
          exact List.mem_map.mpr ⟨other, later, same⟩
        simp only [List.map_cons, if_true, List.sum_cons, others]
        omega
      · have apart : entry.1 ≠ name := fun same => distinct.1 (same ▸ List.mem_map_of_mem later)
        have rest := ih distinct.2 later
        simp only [List.map_cons, if_neg apart, List.sum_cons]
        omega
  exact replaced bucket.entries bucket.distinct member

theorem mem_candidates {entry : List Char × BlockManager} (member : entry ∈ bucket.entries)
    (eligible : isEligibleForFifoEviction entry.1 = true) : entry.1 ∈ bucket.candidates := by
  refine List.mem_map.mpr ⟨entry, ?_, rfl⟩
  rw [(List.perm_insertionSort _ _).mem_iff]
  exact List.mem_filter.mpr ⟨member, eligible⟩

end Sums

section Turns

variable [Codec] {bucket smaller : QuotaBucket}

theorem tryRemoveOldestBlock_ok {manager after : BlockManager} (removed : manager.tryRemoveOldestBlock = .ok after) :
    after.info.size ≤ manager.info.size ∧ after.blockIndex.keys.length + 1 = manager.blockIndex.keys.length := by
  unfold BlockManager.tryRemoveOldestBlock at removed
  cases order : manager.blockIndex.keys with
  | nil =>
    rw [order] at removed
    cases removed
  | cons oldest rest =>
    rw [order] at removed
    obtain rfl := Except.ok.inj removed
    have index : (manager.removeBlock oldest).blockIndex = manager.blockIndex.erase oldest := rfl
    obtain ⟨entry, found⟩ := (mem_keys_iff manager.blockIndex oldest).mp (order ▸ List.mem_cons_self)
    refine ⟨?_, ?_⟩
    · simp only [BlockManager.info, index]
      exact sumBy_erase_le _ _ _
    · have count := size_erase_present manager.blockIndex oldest entry found
      rw [← order, index, Std.ExtTreeMap.length_keys, Std.ExtTreeMap.length_keys]
      omega

theorem tryRemoveOldestBlock_error {manager : BlockManager} {failure : ReductError}
    (kept : manager.tryRemoveOldestBlock = .error failure) : manager.blockIndex.keys = [] := by
  unfold BlockManager.tryRemoveOldestBlock at kept
  cases order : manager.blockIndex.keys with
  | nil => rfl
  | cons oldest rest =>
    rw [order] at kept
    cases kept

theorem removeCandidate_some {names : List (List Char)} (removed : bucket.removeCandidate names = some smaller) :
    smaller.size ≤ bucket.size ∧ smaller.blockCount + 1 = bucket.blockCount := by
  induction names with
  | nil => cases removed
  | cons name rest ih =>
    unfold removeCandidate at removed
    cases found : bucket.entries.find? (·.1 = name) with
    | none =>
      rw [found] at removed
      exact ih removed
    | some entry =>
      simp only [found] at removed
      cases attempt : entry.2.tryRemoveOldestBlock with
      | error failure =>
        rw [attempt] at removed
        exact ih removed
      | ok manager =>
        rw [attempt] at removed
        obtain rfl := Option.some.inj removed
        obtain ⟨smallerSize, fewer⟩ := tryRemoveOldestBlock_ok attempt
        have same : entry.1 = name := by simpa using List.find?_some found
        have member : (name, entry.2) ∈ bucket.entries := same ▸ List.mem_of_find?_eq_some found
        have sizes := total_set (·.info.size) member manager
        have counts := total_set (·.blockIndex.keys.length) member manager
        simp only [size, blockCount]
        omega

theorem removeCandidate_none {names : List (List Char)} (kept : bucket.removeCandidate names = none) :
    ∀ entry ∈ bucket.entries, entry.1 ∈ names → entry.2.blockIndex.keys = [] := by
  induction names with
  | nil => exact fun _ _ member => absurd member List.not_mem_nil
  | cons name rest ih =>
    intro entry member named
    unfold removeCandidate at kept
    cases found : bucket.entries.find? (·.1 = name) with
    | none =>
      rw [found] at kept
      rcases List.mem_cons.mp named with same | later
      · exact absurd (List.find?_eq_none.mp found entry member) (by simpa using same)
      · exact ih kept entry member later
    | some other =>
      simp only [found] at kept
      cases attempt : other.2.tryRemoveOldestBlock with
      | ok manager =>
        rw [attempt] at kept
        cases kept
      | error failure =>
        rw [attempt] at kept
        rcases List.mem_cons.mp named with same | later
        · have key : other.1 = name := by simpa using List.find?_some found
          have own : entry = other :=
            List.inj_on_of_nodup_map bucket.distinct member (List.mem_of_find?_eq_some found) (same.trans key.symm)
          rw [own]
          exact tryRemoveOldestBlock_error attempt
        · exact ih kept entry member later

end Turns

structure Keeps (bucket : QuotaBucket) (contentSize quotaSize : Nat) (outcome : QuotaOutcome) (after : QuotaBucket) : Prop where
  returns : outcome ≠ .panicked
  fits : outcome = .ok → after.size + contentSize ≤ quotaSize
  unchanged : bucket.size + contentSize ≤ quotaSize → outcome = .ok ∧ after = bucket
  exhausted : ∀ failure, outcome = .failed failure → quotaSize < after.size + contentSize ∧
    ∀ entry ∈ after.entries, isEligibleForFifoEviction entry.1 = true → entry.2.blockIndex.keys = []

section Runs

variable [Codec]

theorem removeOldestBlock_keeps (build : Build) (contentSize quotaSize blocks : Nat) (bucket : QuotaBucket)
    (counted : bucket.blockCount = blocks) (fits : bucket.size + contentSize < 2 ^ 64) :
    ∃ outcome after, Keeps bucket contentSize quotaSize outcome after ∧
      ∀ fuel, blocks < fuel → removeOldestBlock build contentSize quotaSize fuel bucket = some (outcome, after) := by
  -- The number of blocks is what gets smaller in each turn.
  induction blocks using Nat.strong_induction_on generalizing bucket with
  | _ blocks ih =>
    have needed := neededSize_fits build fits
    by_cases exceeds : bucket.size + contentSize > quotaSize
    · cases attempt : bucket.removeCandidate bucket.candidates with
      | none =>
        refine ⟨.failed (internalServerError ("Failed to keep quota of '" ++ bucket.name ++ "'")), bucket,
          ⟨by simp, by simp, fun small => absurd small (by omega), fun _ _ => ⟨exceeds, fun entry member eligible => ?_⟩⟩, ?_⟩
        · exact removeCandidate_none attempt entry member (mem_candidates member eligible)
        · rintro (_ | fuel) enough
          · omega
          · simp only [removeOldestBlock, needed, if_pos exceeds, attempt]
      | some smaller =>
        obtain ⟨size, count⟩ := removeCandidate_some attempt
        obtain ⟨outcome, after, keeps, runs⟩ := ih smaller.blockCount (by omega) smaller rfl (by omega)
        refine ⟨outcome, after, ⟨keeps.returns, keeps.fits, fun small => absurd small (by omega), keeps.exhausted⟩, ?_⟩
        rintro (_ | fuel) enough
        · omega
        · simp only [removeOldestBlock, needed, if_pos exceeds, attempt]
          exact runs fuel (by omega)
    · refine ⟨.ok, bucket, ⟨by simp, fun _ => by omega, fun _ => ⟨rfl, rfl⟩, by simp⟩, ?_⟩
      rintro (_ | fuel) enough
      · omega
      · simp only [removeOldestBlock, needed, if_neg exceeds]

/-- With the quota type FIFO the call ends, and what it returns tells whether the content fits: the same for all amounts of
fuel above the number of blocks. -/
theorem keep_quota_fifo (build : Build) (settings : QuotaSettings) (fifo : settings.quotaType = some .fifo) (contentSize : Nat)
    (bucket : QuotaBucket) (fits : bucket.size + contentSize < 2 ^ 64) :
    ∃ outcome after, Keeps bucket contentSize (settings.quotaSize.getD 0) outcome after ∧
      ∀ fuel, bucket.blockCount < fuel → keepQuotaFor build settings contentSize fuel bucket = some (outcome, after) := by
  obtain ⟨outcome, after, keeps, runs⟩ :=
    removeOldestBlock_keeps build contentSize (settings.quotaSize.getD 0) bucket.blockCount bucket rfl fits
  refine ⟨outcome, after, keeps, fun fuel enough => ?_⟩
  rw [keepQuotaFor, fifo]
  exact runs fuel enough

end Runs

section Sample

def oneBlock : QuotaBucket :=
  { name := "data", entries := [(['a'], (BlockManager.smallEntry.beginWrite (BlockManager.smallWrite 5 1)).2)], distinct := by simp }

theorem keep_quota_fifo_one_block :
    oneBlock.blockCount = 1 ∧ 0 < oneBlock.size ∧ ∃ outcome after, Keeps oneBlock 7 10 outcome after ∧
      keepQuotaFor .debug { quotaType := some .fifo, quotaSize := some 10 } 7 2 oneBlock = some (outcome, after) := by
  obtain ⟨outcome, after, keeps, runs⟩ := keep_quota_fifo .debug { quotaType := some .fifo, quotaSize := some 10 } rfl 7 oneBlock
    (by decide +kernel)
  exact ⟨by decide +kernel, by decide +kernel, outcome, after, keeps, runs 2 (by decide +kernel)⟩

end Sample

end QuotaBucket

end ReductStore
