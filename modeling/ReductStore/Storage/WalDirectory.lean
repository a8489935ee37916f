import ReductStore.Storage.TornAppend

set_option autoImplicit false

namespace ReductStore

open Std TreeMap

structure WalImpl where
  rootPath : String
  files : ExtTreeMap Nat File
  filePositions : ExtTreeMap Nat Nat

namespace WalImpl

open Wal

def empty (rootPath : String) : WalImpl :=
  { rootPath, files := ∅, filePositions := ∅ }

def blockWalPath (wal : WalImpl) (blockId : Nat) : String := wal.rootPath ++ "/" ++ toString blockId ++ ".wal"

-- a file without a position is overwritten from its start
def logFile (wal : WalImpl) (blockId : Nat) : Option LogFile :=
  wal.files[blockId]?.map fun bytes => { bytes, position := wal.filePositions[blockId]?.getD 0 }

section Calls

variable [Codec]

def append (wal : WalImpl) (blockId : Nat) (entry : WalEntry) : WalImpl :=
  let log := Wal.append (wal.logFile blockId) entry
  { wal with
    files := wal.files.insert blockId log.bytes
    filePositions := wal.filePositions.insert blockId log.position }

def missingFile (path : String) : ReductError := internalServerError ("File \"" ++ path ++ "\" does not exist")

def read (wal : WalImpl) (blockId : Nat) : ReadResult :=
  match wal.files[blockId]? with
  | some bytes => Wal.read (wal.blockWalPath blockId) bytes
  | none => .error (missingFile (wal.blockWalPath blockId))

end Calls

-- the position of a removed file stays behind
def remove (wal : WalImpl) (blockId : Nat) : WalImpl :=
  { wal with files := wal.files.erase blockId }

end WalImpl

section Tracking

variable [Codec]

namespace Wal

theorem LogFile.Holds.read {log : LogFile} {entries : List WalEntry} (holds : log.Holds entries) (path : String)
    (faithful : ∀ entry ∈ entries, entry.Faithful) : Wal.read path log.bytes = .ok entries := by
  obtain ⟨⟨padding, bytes⟩, _⟩ := holds
  have stop : Wal.read path (stopMarker :: List.replicate padding 0) = .ok [] := by rw [Wal.read, if_pos rfl]
  rw [bytes, read_bodies path entries faithful, stop, push_ok, List.append_nil]

end Wal

namespace WalImpl

open Wal

structure Tracks (wal : WalImpl) (entries : Nat → List WalEntry) : Prop where
  absent : ∀ blockId, entries blockId = [] → wal.files[blockId]? = none
  held : ∀ blockId, entries blockId ≠ [] → ∃ log, wal.logFile blockId = some log ∧ log.Holds (entries blockId)

theorem tracks_empty (rootPath : String) : (empty rootPath).Tracks (fun _ => []) where
  absent blockId _ := by simp [empty]
  held blockId some := absurd rfl some

variable {wal : WalImpl} {entries : Nat → List WalEntry}

theorem logFile_append (wal : WalImpl) (blockId : Nat) (entry : WalEntry) (other : Nat) :
    (wal.append blockId entry).logFile other =
      if other = blockId then some (Wal.append (wal.logFile blockId) entry) else wal.logFile other := by
  by_cases same : other = blockId
  · simp [logFile, append, same]
  · simp [logFile, append, get_insert, same]

theorem Tracks.append (tracks : wal.Tracks entries) (blockId : Nat) (entry : WalEntry) :
    (wal.append blockId entry).Tracks (Function.update entries blockId (entries blockId ++ [entry])) where
  absent other none := by
    by_cases same : other = blockId
    · simp [same] at none
    · rw [Function.update_of_ne same] at none
      simpa [WalImpl.append, get_insert, same] using tracks.absent other none
  held other some := by
    rw [logFile_append]
    by_cases same : other = blockId
    · subst same
      rw [if_pos rfl, Function.update_self]
      refine ⟨_, rfl, ?_⟩
      by_cases fresh : entries other = []
      · -- the position that a removed file left behind is not used: the file is created again
        have missing : wal.logFile other = none := by simp [logFile, tracks.absent other fresh]
        rw [missing, fresh]
        exact append_created entry
      · obtain ⟨log, found, holds⟩ := tracks.held other fresh
        rw [found]
        exact append_holds log _ holds entry
    · rw [if_neg same, Function.update_of_ne same]
      rw [Function.update_of_ne same] at some
      exact tracks.held other some

theorem Tracks.remove (tracks : wal.Tracks entries) (blockId : Nat) :
    (wal.remove blockId).Tracks (Function.update entries blockId []) where
  absent other none := by
    by_cases same : other = blockId
    · simp [WalImpl.remove, same]
    · rw [Function.update_of_ne same] at none
      simpa [WalImpl.remove, get_erase, same] using tracks.absent other none
  held other some := by
    by_cases same : other = blockId
    · simp [same] at some
    · rw [Function.update_of_ne same] at some ⊢
      simpa [logFile, WalImpl.remove, get_erase, same] using tracks.held other some

theorem Tracks.read (tracks : wal.Tracks entries) (blockId : Nat)
    (faithful : ∀ entry ∈ entries blockId, entry.Faithful) :
    wal.read blockId =
      if entries blockId = [] then .error (missingFile (wal.blockWalPath blockId)) else .ok (entries blockId) := by
  by_cases none : entries blockId = []
  · rw [if_pos none, WalImpl.read, tracks.absent blockId none]
  · obtain ⟨log, found, holds⟩ := tracks.held blockId none
    obtain ⟨bytes, present, rfl⟩ := Option.map_eq_some_iff.mp found
    rw [if_neg none, WalImpl.read, present]
    exact holds.read _ faithful

end WalImpl

end Tracking

inductive WalCall where
  | append (blockId : Nat) (entry : WalEntry)
  | remove (blockId : Nat)

namespace WalImpl

open Wal

def appended (calls : List WalCall) (blockId : Nat) : List WalEntry :=
  calls.foldl (fun entries call =>
    match call with
    | .append other entry => if other = blockId then entries ++ [entry] else entries
    | .remove other => if other = blockId then [] else entries) []

theorem appended_append (calls : List WalCall) (blockId : Nat) (entry : WalEntry) :
    appended (calls ++ [.append blockId entry]) =
      Function.update (appended calls) blockId (appended calls blockId ++ [entry]) := by
  funext other
  by_cases same : other = blockId
  · simp [appended, same]
  · simp [appended, same, Ne.symm same]

theorem appended_remove (calls : List WalCall) (blockId : Nat) :
    appended (calls ++ [.remove blockId]) = Function.update (appended calls) blockId [] := by
  funext other
  by_cases same : other = blockId
  · simp [appended, same]
  · simp [appended, same, Ne.symm same]

section Runs

variable [Codec]

def call (wal : WalImpl) : WalCall → WalImpl
  | .append blockId entry => wal.append blockId entry
  | .remove blockId => wal.remove blockId

def after (rootPath : String) (calls : List WalCall) : WalImpl := calls.foldl call (empty rootPath)

theorem tracks_after (rootPath : String) (calls : List WalCall) : (after rootPath calls).Tracks (appended calls) := by
  induction calls using List.reverseRecOn with
  | nil => exact tracks_empty rootPath
  | append_singleton calls last ih =>
    rw [after, List.foldl_append]
    cases last with
    | append blockId entry =>
      rw [appended_append]
      exact ih.append blockId entry
    | remove blockId =>
      rw [appended_remove]
      exact ih.remove blockId

omit [Codec] in
theorem mem_appended (calls : List WalCall) (blockId : Nat) (entry : WalEntry) (member : entry ∈ appended calls blockId) :
    .append blockId entry ∈ calls := by
  induction calls using List.reverseRecOn with
  | nil => simp [appended] at member
  | append_singleton calls last ih =>
    cases last with
    | append other added =>
      rw [appended_append] at member
      by_cases same : blockId = other
      · subst same
        rw [Function.update_self, List.mem_append, List.mem_singleton] at member
        rcases member with earlier | rfl
        · exact List.mem_append_left _ (ih earlier)
        · simp
      · rw [Function.update_of_ne same] at member
        exact List.mem_append_left _ (ih member)
    | remove other =>
      rw [appended_remove] at member
      by_cases same : blockId = other
      · simp [same] at member
      · rw [Function.update_of_ne same] at member
        exact List.mem_append_left _ (ih member)

theorem read_appended (rootPath : String) (calls : List WalCall)
    (faithful : ∀ blockId entry, .append blockId entry ∈ calls → entry.Faithful) (blockId : Nat) :
    (after rootPath calls).read blockId =
      if appended calls blockId = [] then .error (missingFile ((after rootPath calls).blockWalPath blockId))
      else .ok (appended calls blockId) :=
  (tracks_after rootPath calls).read blockId
    (fun entry member => faithful blockId entry (mem_appended calls blockId entry member))

end Runs

def interleaved : List WalCall :=
  [.append 1 (.removeRecord 1), .append 2 (.writeRecord (writtenRecord 1 0 10)), .remove 1,
    .append 1 (.removeRecord 2), .append 2 .removeBlock]

theorem read_appended_interleaved :
    (after "entry/.wal" interleaved).read 1 = .ok [.removeRecord 2] ∧
      (after "entry/.wal" interleaved).read 2 = .ok [.writeRecord (writtenRecord 1 0 10), .removeBlock] := by
  have faithful (blockId : Nat) (entry : WalEntry) (member : WalCall.append blockId entry ∈ interleaved) :
      entry.Faithful := by
    have record : (WalEntry.writeRecord (writtenRecord 1 0 10)).Faithful := by
      constructor <;> decide +kernel
    simp only [interleaved, List.mem_cons, WalCall.append.injEq, reduceCtorEq, List.not_mem_nil, or_false,
      false_or] at member
    rcases member with ⟨_, rfl⟩ | ⟨_, rfl⟩ | ⟨_, rfl⟩ | ⟨_, rfl⟩
    · change 1 < 2 ^ 64
      decide
    · exact record
    · change 2 < 2 ^ 64
      decide
    · trivial
  exact ⟨read_appended "entry/.wal" interleaved faithful 1, read_appended "entry/.wal" interleaved faithful 2⟩

theorem read_removed :
    (after "entry/.wal" [.append 1 .removeBlock, .remove 1]).read 1 ≠
      .ok (appended [.append 1 .removeBlock, .remove 1] 1) := by
  rw [(tracks_after "entry/.wal" [.append 1 .removeBlock, .remove 1]).read 1 (by simp [appended])]
  simp [appended]

end WalImpl

end ReductStore
