import ReductStore.Api.BatchedRead

set_option autoImplicit false

namespace ReductStore.BatchedRead

open BatchHeader DeltaHeader

section Calls

inductive Call where
  | removed
  | returned (readers : Option Readers) (time : Nat)
  deriving DecidableEq

inductive Progress where
  | waiting (records : List RecordMeta)
  | ended (result : Ended)
  | panicked
  deriving DecidableEq

def Progress.running : Progress → Bool
  | .waiting _ => true
  | _ => false

def Call.late (batchTimeout : Nat) : Call → Bool
  | .removed => false
  | .returned _ time => batchTimeout < time

def Call.silent : Call → Bool
  | .returned none _ => true
  | _ => false

variable (protocol : Protocol) (io : IoConfig) (batchTimeout : Nat) (emptyBody : Bool)

def loopCall (records : List RecordMeta) : Call → Progress
  | .removed => .ended (.error (internalServerError "Weak reference is no longer valid"))
  | .returned none time =>
    if protocol.quits (batchTimeout < time) records then .ended (.ok (records, false)) else .waiting records
  | .returned (some readers) time =>
    let records := records ++ readers.records
    match protocol.headerSize records with
    | none => .panicked
    | some headerSize =>
      match readers.errors with
      | failure :: _ =>
        if records = [] then .ended (.error failure)
        else if failure.status = .noContent then .ended (.ok (records, true))
        else .ended (.error failure)
      | [] =>
        if limitReached io emptyBody headerSize records (batchTimeout < time) then .ended (.ok (records, false))
        else .waiting records

def progress (calls : Nat → Call) : Nat → Progress
  | 0 => .waiting []
  | count + 1 =>
    match progress calls count with
    | .waiting records => loopCall protocol io batchTimeout emptyBody records (calls count)
    | ended => ended

end Calls

section Timeout

variable (version : Version) (io : IoConfig) (batchTimeout : Nat) (emptyBody : Bool)

theorem loopCall_late {protocol : Protocol} {records : List RecordMeta} {call : Call} (late : call.late batchTimeout = true)
    (filled : call.silent = false) : (loopCall protocol io batchTimeout emptyBody records call).running = false := by
  cases call with
  | removed => rfl
  | returned readers time =>
    cases readers with
    | none => cases filled
    | some readers =>
      rw [loopCall]
      cases protocol.headerSize (records ++ readers.records) with
      | none => rfl
      | some headerSize =>
        cases readers.errors with
        | cons failure errors => dsimp only; split_ifs <;> rfl
        | nil =>
          have reached : limitReached io emptyBody headerSize (records ++ readers.records) (batchTimeout < time) = true := by
            rw [limitReached, show decide (batchTimeout < time) = true from late, Bool.or_true]
          simp only [reached, if_true]
          rfl

theorem loopCall_silent {records : List RecordMeta} {call : Call} (late : call.late batchTimeout = true)
    (silent : call.silent = true) :
    loopCall version.protocol io batchTimeout emptyBody records call =
      if version = .bucket then .ended (.ok (records, false)) else .waiting records := by
  cases call with
  | removed => cases silent
  | returned readers time =>
    cases readers with
    | some readers => cases silent
    | none =>
      cases version with
      | entry => rfl
      | bucket =>
        have quits : Version.bucket.protocol.quits (batchTimeout < time) records = true := by
          show (decide (batchTimeout < time) || !records.isEmpty) = true
          rw [show decide (batchTimeout < time) = true from late, Bool.true_or]
        rw [loopCall, if_pos quits, if_pos rfl]

theorem progress_waiting {protocol : Protocol} {calls : Nat → Call} {count : Nat} {records : List RecordMeta}
    (waiting : progress protocol io batchTimeout emptyBody calls count = .waiting records) :
    progress protocol io batchTimeout emptyBody calls (count + 1) =
      loopCall protocol io batchTimeout emptyBody records (calls count) := by
  rw [progress, waiting]

theorem progress_running {protocol : Protocol} {calls : Nat → Call} {count : Nat}
    (running : (progress protocol io batchTimeout emptyBody calls (count + 1)).running = true) :
    ∃ records, progress protocol io batchTimeout emptyBody calls count = .waiting records ∧
      progress protocol io batchTimeout emptyBody calls (count + 1) =
        loopCall protocol io batchTimeout emptyBody records (calls count) := by
  rw [progress] at running
  cases before : progress protocol io batchTimeout emptyBody calls count with
  | waiting records => exact ⟨records, rfl, progress_waiting io batchTimeout emptyBody before⟩
  | ended result => rw [before] at running; cases running
  | panicked => rw [before] at running; cases running

structure Prompt (calls : Nat → Call) : Prop where
  ends : ∀ count, (calls count).late batchTimeout = true →
    (progress version.protocol io batchTimeout emptyBody calls (count + 1)).running = false
  returns : ∀ count records, progress version.protocol io batchTimeout emptyBody calls count = .waiting records →
    (calls count).late batchTimeout = true → (calls count).silent = true →
      progress version.protocol io batchTimeout emptyBody calls (count + 1) = .ended (.ok (records, false))

/-- The loop over a bucket ends in time. The one over an entry does so exactly if it makes no late call without a result. -/
theorem prompt_iff (calls : Nat → Call) :
    Prompt version io batchTimeout emptyBody calls ↔
      version = .bucket ∨ ∀ count,
        (progress version.protocol io batchTimeout emptyBody calls count).running = true →
          (calls count).late batchTimeout = true → (calls count).silent = false := by
  constructor
  · intro prompt
    refine or_iff_not_imp_left.mpr fun other count running late => ?_
    by_contra silent
    rw [Bool.not_eq_false] at silent
    cases before : progress version.protocol io batchTimeout emptyBody calls count with
    | waiting records =>
      have next := prompt.returns count records before late silent
      rw [progress_waiting io batchTimeout emptyBody before, loopCall_silent version io batchTimeout emptyBody late silent,
        if_neg other] at next
      cases next
    | ended result => rw [before] at running; cases running
    | panicked => rw [before] at running; cases running
  · intro kind
    refine ⟨fun count late => ?_, fun count records before late silent => ?_⟩
    · by_contra running
      rw [Bool.not_eq_false] at running
      obtain ⟨records, before, next⟩ := progress_running io batchTimeout emptyBody running
      rw [next] at running
      cases silent : (calls count).silent with
      | false => rw [loopCall_late io batchTimeout emptyBody late silent] at running; cases running
      | true =>
        rcases kind with rfl | heard
        · rw [loopCall_silent .bucket io batchTimeout emptyBody late silent, if_pos rfl] at running
          cases running
        · rw [heard count (by rw [before]; rfl) late] at silent
          cases silent
    · rcases kind with rfl | heard
      · rw [progress_waiting io batchTimeout emptyBody before]
        exact (loopCall_silent .bucket io batchTimeout emptyBody late silent).trans (if_pos rfl)
      · rw [heard count (by rw [before]; rfl) late] at silent
        cases silent

def silentCalls (record : RecordMeta) : Nat → Call
  | 0 => .returned (some { records := [record], errors := [] }) 1
  | count + 1 => .returned none (5 * (count + 1))

def heldRecord : RecordMeta :=
  { entryName := "e", timestamp := 1, labels := [], contentType := "text/plain", contentLength := 1, computedLabels := [] }

def heldIo : IoConfig := { batchMaxSize := 8000000, batchMaxMetadataSize := 512000, batchMaxRecords := 85 }

theorem record_withheld :
    (silentCalls heldRecord 2).late 5 = true ∧
      progress Version.entry.protocol heldIo 5 false (silentCalls heldRecord) 11 = .waiting [heldRecord] ∧
      progress Version.bucket.protocol heldIo 5 false (silentCalls heldRecord) 2 = .ended (.ok ([heldRecord], false)) := by
  decide +kernel

end Timeout

end ReductStore.BatchedRead
