import ReductStore.Condition.Duration
import ReductStore.Query.Filters
import ReductStore.Storage.EntryInfo
import ReductStore.Storage.EntrySelection

set_option autoImplicit false

namespace ReductStore

open Traced

inductive LifecycleType where
  | delete
  | compress
  deriving DecidableEq

inductive LifecycleMode where
  | enabled
  | disabled
  | dryRun
  deriving DecidableEq

structure LifecycleSettings where
  lifecycleType : LifecycleType
  entries : List (List Char)
  olderThan : List Char
  interval : List Char
  processingInterval : Option (List Char)
  mode : LifecycleMode

namespace Lifecycle

def maxU64 : Nat := 2 ^ 64 - 1

def saturatingAdd (left right : Nat) : Nat := min (left + right) maxU64

def saturatingMul (left right : Nat) : Nat := min (left * right) maxU64

def clamped (usecs : Int64) : Nat := usecs.toInt.toNat

structure ProcessingWindow where
  start : Nat
  stop : Nat
  lastProcessedTs : Option Nat
  reachesCutoff : Bool
  deriving DecidableEq

def matchingRecords (settings : LifecycleSettings) (entries : List (List Char × EntryInfo)) : List EntryInfo :=
  (entries.filter fun entry =>
    decide (entry.2.recordCount > 0) && isRequestedEntry entry.1 (requestedEntries settings.entries)).map Prod.snd

def matchingRecordWindow (settings : LifecycleSettings) (entries : List (List Char × EntryInfo)) (cutoffStop : Nat) :
    Nat × Nat :=
  let matching := matchingRecords settings entries
  if matching = [] then (cutoffStop, cutoffStop)
  else
    (min ((matching.map EntryInfo.oldestRecord).min?.getD cutoffStop) cutoffStop,
      min ((matching.map fun entry => saturatingAdd entry.latestRecord 1).max?.getD cutoffStop) cutoffStop)

def windowFrom (firstRecordStart effectiveCutoffStop : Nat) (processingInterval : Option Nat) : ProcessingWindow :=
  let stop := match processingInterval with
    | some interval => min (saturatingAdd firstRecordStart interval) effectiveCutoffStop
    | none => effectiveCutoffStop
  { start := min firstRecordStart stop, stop, lastProcessedTs := none, reachesCutoff := false }

def windowBehind (firstRecordStart effectiveCutoffStop dataWindow lastProcessed : Nat) : ProcessingWindow :=
  if lastProcessed ≥ effectiveCutoffStop then
    { start := min firstRecordStart effectiveCutoffStop, stop := effectiveCutoffStop
      lastProcessedTs := some lastProcessed, reachesCutoff := true }
  else
    let windowStop := min (saturatingAdd lastProcessed dataWindow) effectiveCutoffStop
    { start := min firstRecordStart windowStop, stop := windowStop, lastProcessedTs := some windowStop
      reachesCutoff := windowStop ≥ effectiveCutoffStop }

def parseInterval (build : Condition.Build) : Option (List Char) → Traced Condition.IntOp ReductError (Option Nat)
  | none => pure none
  | some interval => do
    let usecs ← Condition.parseDurationToMicros build interval
    pure (some (clamped usecs))

def processingWindow (build : Condition.Build) (settings : LifecycleSettings) (systemEventsEnabled : Bool)
    (entries : List (List Char × EntryInfo)) (progress : Option Nat) (cutoffStop : Nat) :
    Traced Condition.IntOp ReductError ProcessingWindow := do
  let (firstRecordStart, effectiveCutoffStop) := matchingRecordWindow settings entries cutoffStop
  let processingInterval ← parseInterval build settings.processingInterval
  if systemEventsEnabled then
    let interval ← Condition.parseDurationToMicros build settings.interval
    let dataWindow := processingInterval.getD (saturatingMul (clamped interval) 24)
    pure (windowBehind firstRecordStart effectiveCutoffStop dataWindow (progress.getD firstRecordStart))
  else pure (windowFrom firstRecordStart effectiveCutoffStop processingInterval)

inductive Operation where
  | queryCountRecords
  | queryRemoveRecords
  | estimateCompressibleData
  | compressBlocks
  deriving DecidableEq

structure Plan where
  window : ProcessingWindow
  operation : Operation
  deriving DecidableEq

def cutoffStop (now : Nat) (olderThan : Int64) : Nat := saturatingAdd (now - clamped olderThan) 1

def plan (operation : LifecycleMode → Operation) (build : Condition.Build) (settings : LifecycleSettings)
    (systemEventsEnabled : Bool) (entries : List (List Char × EntryInfo)) (progress : Option Nat) (now : Nat) :
    Traced Condition.IntOp ReductError Plan := do
  let olderThan ← Condition.parseDurationToMicros build settings.olderThan
  let window ← processingWindow build settings systemEventsEnabled entries progress (cutoffStop now olderThan)
  pure { window, operation := operation settings.mode }

def deletePlan := plan fun mode => if mode = .dryRun then .queryCountRecords else .queryRemoveRecords

def compressPlan := plan fun mode => if mode = .dryRun then .estimateCompressibleData else .compressBlocks

def buildLifecycleAction : LifecycleType → Condition.Build → LifecycleSettings → Bool → List (List Char × EntryInfo) →
    Option Nat → Nat → Traced Condition.IntOp ReductError Plan
  | .delete => deletePlan
  | .compress => compressPlan

end Lifecycle

end ReductStore
