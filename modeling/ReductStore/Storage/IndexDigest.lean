import ReductStore.Shared.FixedWidth
import ReductStore.Storage.IndexFile
import ReductStore.Condition.Integer

set_option autoImplicit false

namespace ReductStore

open BigEndian FixedWidth Condition

structure Timestamp where
  seconds : Int64
  nanos : Int32
  deriving DecidableEq

namespace Timestamp

def scaled (ts : Timestamp) : Int := ts.seconds.toInt * 1000000

def micros (ts : Timestamp) : Int := ts.scaled + ts.nanos.toInt.tdiv 1000

def us (ts : Timestamp) : Nat := (ts.micros % 2 ^ 64).toNat

def Computes (build : Build) (ts : Timestamp) : Prop := build = .debug → InI64 ts.scaled ∧ InI64 ts.micros

instance (build : Build) (ts : Timestamp) : Decidable (ts.Computes build) := by
  unfold Computes
  infer_instance

def tsToUs (build : Build) (ts : Timestamp) : Option Nat := if ts.Computes build then some ts.us else none

theorem us_lt (ts : Timestamp) : ts.us < 2 ^ 64 := by
  unfold us
  omega

end Timestamp

structure IndexEntry where
  blockId : UInt64
  size : UInt64
  recordCount : UInt64
  metadataSize : UInt64
  latestRecordTime : Option Timestamp
  crc64 : Option UInt64
  compression : Option Int32
  corrupted : Option Bool
  version : Option UInt64
  deriving DecidableEq

namespace IndexEntry

/-- The entry with its time in microseconds, as the checksum and the index use it. A missing time is unwrapped. -/
def toIndexBlock (build : Build) (entry : IndexEntry) : Option IndexBlock := do
  let latestRecordTime ← entry.latestRecordTime
  let micros ← latestRecordTime.tsToUs build
  pure { blockId := entry.blockId.toNat, size := entry.size.toNat, recordCount := entry.recordCount.toNat
         metadataSize := entry.metadataSize.toNat, latestRecordTime := some micros, crc64 := entry.crc64
         compression := entry.compression.map fun algorithm => algorithm.toInt.toNat
         corrupted := entry.corrupted, version := entry.version.map UInt64.toNat }

def digest (build : Build) (entries : List IndexEntry) : Option (List UInt8) :=
  (entries.mapM (toIndexBlock build)).map IndexFile.digest

def fromProto [IndexCodec] (build : Build) (path : String) (entries : List IndexEntry) (crc64 : UInt64) :
    IndexFile.LoadResult :=
  match entries.mapM (toIndexBlock build) with
  | none => .panic
  | some blocks => IndexFile.fromProto path { blocks, crc64 }

def Readable (build : Build) (entry : IndexEntry) : Prop :=
  ∃ ts, entry.latestRecordTime = some ts ∧ ts.Computes build

def time (entry : IndexEntry) : Nat := (entry.latestRecordTime.map Timestamp.us).getD 0

def fields (entry : IndexEntry) : List Field :=
  [(8, entry.blockId.toNat), (8, entry.size.toNat), (8, entry.recordCount.toNat), (8, entry.metadataSize.toNat),
    (8, entry.time)] ++ (entry.crc64.map fun crc => (8, crc.toNat)).toList ++
    (entry.corrupted.map fun corrupted => (1, corrupted.toNat)).toList ++
    (entry.version.map fun version => (8, version.toNat)).toList

def shape (entry : IndexEntry) : Bool × Bool × Bool :=
  (entry.crc64.isSome, entry.corrupted.isSome, entry.version.isSome)

structure Agree (first second : IndexEntry) : Prop where
  blockId : first.blockId = second.blockId
  size : first.size = second.size
  recordCount : first.recordCount = second.recordCount
  metadataSize : first.metadataSize = second.metadataSize
  time : first.time = second.time
  crc64 : first.crc64 = second.crc64
  corrupted : first.corrupted = second.corrupted
  version : first.version = second.version

theorem fits_fields (entry : IndexEntry) : ∀ field ∈ entry.fields, Fits field := by
  have time : entry.time < 256 ^ 8 := by
    unfold IndexEntry.time
    cases entry.latestRecordTime with
    | none => simp
    | some ts => exact ts.us_lt
  have word : ∀ number : UInt64, Fits (8, number.toNat) := fun number => ⟨Nat.succ_pos 7, number.toNat_lt⟩
  have flag : ∀ corrupted : Bool, Fits (1, corrupted.toNat) := fun corrupted => by
    cases corrupted <;> exact ⟨by decide, by decide⟩
  intro field member
  simp only [fields, List.mem_append, List.mem_cons, List.not_mem_nil, or_false, Option.mem_toList,
    Option.map_eq_some_iff] at member
  rcases member with (((rfl | rfl | rfl | rfl | rfl) | ⟨crc, -, rfl⟩) | ⟨corrupted, -, rfl⟩) | ⟨version, -, rfl⟩
  · exact word _
  · exact word _
  · exact word _
  · exact word _
  · exact ⟨Nat.succ_pos 7, time⟩
  · exact word crc
  · exact flag corrupted
  · exact word version

theorem toIndexBlock_isSome {build : Build} {entry : IndexEntry} :
    (entry.toIndexBlock build).isSome ↔ entry.Readable build := by
  unfold toIndexBlock Readable Timestamp.tsToUs
  cases entry.latestRecordTime with
  | none => simp
  | some ts => by_cases computes : ts.Computes build <;> simp [computes]

theorem fixed_flag (flag : Bool) : fixed 1 flag.toNat = [if flag then 1 else 0] := by
  cases flag <;> rfl

theorem blockDigest_toIndexBlock {build : Build} {entry : IndexEntry} {block : IndexBlock}
    (converted : entry.toIndexBlock build = some block) :
    IndexFile.blockDigest block = stream entry.fields ∧ block.latestRecordTime ≠ none := by
  unfold toIndexBlock at converted
  cases stamped : entry.latestRecordTime with
  | none => simp [stamped] at converted
  | some ts =>
    by_cases computes : ts.Computes build
    · simp only [stamped, Timestamp.tsToUs, computes, if_true, Option.bind_eq_bind, Option.bind_some, Option.pure_def,
        Option.some.injEq] at converted
      subst converted
      refine ⟨?_, by simp⟩
      simp only [IndexFile.blockDigest, stream, fields, IndexEntry.time, stamped]
      cases entry.crc64 <;> cases entry.corrupted <;> cases entry.version <;> simp [fixed_eight, fixed_flag]
    · simp [stamped, Timestamp.tsToUs, computes] at converted

variable {build : Build} {entries : List IndexEntry} {bytes : List UInt8}

theorem digest_eq_some : digest build entries = some bytes ↔
    (∀ entry ∈ entries, entry.Readable build) ∧ bytes = stream (entries.flatMap fields) := by
  induction entries generalizing bytes with
  | nil => simp [digest, IndexFile.digest, stream, eq_comm]
  | cons entry rest ih =>
    have step : digest build (entry :: rest) =
        (entry.toIndexBlock build).bind fun block =>
          (digest build rest).map fun bytes => IndexFile.blockDigest block ++ bytes := by
      cases converted : entry.toIndexBlock build <;> cases later : rest.mapM (toIndexBlock build) <;>
        simp [digest, List.mapM_cons, converted, later, IndexFile.digest]
    rw [step, List.forall_mem_cons, List.flatMap_cons]
    cases converted : entry.toIndexBlock build with
    | none =>
      have unreadable : ¬ entry.Readable build := by simp [← toIndexBlock_isSome, converted]
      simp [unreadable]
    | some block =>
      have readable : entry.Readable build := by simp [← toIndexBlock_isSome, converted]
      have first := (blockDigest_toIndexBlock converted).1
      simp only [Option.bind_some, Option.map_eq_some_iff, ih, readable, true_and, first]
      constructor
      · rintro ⟨tail, ⟨others, rfl⟩, rfl⟩
        exact ⟨others, by simp [stream]⟩
      · rintro ⟨others, rfl⟩
        exact ⟨_, ⟨others, rfl⟩, by simp [stream]⟩

theorem converted_timed {blocks : List IndexBlock} (converted : entries.mapM (toIndexBlock build) = some blocks) :
    ∀ block ∈ blocks, block.latestRecordTime ≠ none := by
  induction entries generalizing blocks with
  | nil =>
    obtain rfl : blocks = [] := by simpa using converted.symm
    simp
  | cons entry rest ih =>
    rw [List.mapM_cons] at converted
    cases first : entry.toIndexBlock build with
    | none => simp [first] at converted
    | some block =>
      cases later : rest.mapM (toIndexBlock build) with
      | none => simp [first, later] at converted
      | some tail =>
        obtain rfl : block :: tail = blocks := by simpa [first, later] using converted
        exact List.forall_mem_cons.mpr ⟨(blockDigest_toIndexBlock first).2, ih later⟩

theorem fits_all (entries : List IndexEntry) : ∀ field ∈ entries.flatMap fields, Fits field := by
  intro field member
  obtain ⟨entry, -, listed⟩ := List.mem_flatMap.mp member
  exact entry.fits_fields field listed

section Changed

variable [IndexCodec]

theorem fromProto_eq_error_iff (path : String) (crc64 : UInt64) :
    (∃ failure, fromProto build path entries crc64 = .error failure) ↔
      ∃ bytes, digest build entries = some bytes ∧ Codec.crc64 bytes ≠ crc64 := by
  unfold fromProto digest
  cases converted : entries.mapM (toIndexBlock build) with
  | none => simp
  | some blocks =>
    have timed : blocks.any (·.latestRecordTime.isNone) = false := by simpa using converted_timed converted
    by_cases same : Codec.crc64 (IndexFile.digest blocks) = crc64 <;> simp [IndexFile.fromProto, timed, same]

def Detected (build : Build) (path : String) (saved changed : List IndexEntry) : Prop :=
  ∃ first second, digest build saved = some first ∧ digest build changed = some second ∧ first ≠ second ∧
    ∃ failure, fromProto build path changed (Codec.crc64 first) = .error failure

theorem detected_iff (path : String) (saved changed : List IndexEntry)
    (saves : ∀ entry ∈ saved, entry.Readable build)
    (distinct : ∀ first second, digest build saved = some first → digest build changed = some second →
      Codec.crc64 first = Codec.crc64 second → first = second) :
    Detected build path saved changed ↔ (∀ entry ∈ changed, entry.Readable build) ∧
      ¬ Regroups (saved.flatMap fields) (changed.flatMap fields) := by
  have fed : digest build saved = some (stream (saved.flatMap fields)) := digest_eq_some.mpr ⟨saves, rfl⟩
  rw [regroups_iff (fits_all saved) (fits_all changed)]
  constructor
  · rintro ⟨first, second, isFirst, isSecond, differ, -⟩
    obtain ⟨-, rfl⟩ := digest_eq_some.mp isFirst
    obtain ⟨readable, rfl⟩ := digest_eq_some.mp isSecond
    exact ⟨readable, differ⟩
  · rintro ⟨readable, differ⟩
    have fed' : digest build changed = some (stream (changed.flatMap fields)) := digest_eq_some.mpr ⟨readable, rfl⟩
    refine ⟨_, _, fed, fed', differ, (fromProto_eq_error_iff path _).mpr ⟨_, fed', fun same => ?_⟩⟩
    exact differ (distinct _ _ fed fed' same.symm)

end Changed

theorem widths_fields {first second : IndexEntry} (same : first.shape = second.shape) :
    first.fields.map Prod.fst = second.fields.map Prod.fst := by
  have width : ∀ entry : IndexEntry, entry.fields.map Prod.fst =
      [8, 8, 8, 8, 8] ++ (if entry.shape.1 then [8] else []) ++ (if entry.shape.2.1 then [1] else []) ++
        if entry.shape.2.2 then [8] else [] := by
    intro entry
    unfold fields shape
    cases entry.crc64 <;> cases entry.corrupted <;> cases entry.version <;> rfl
  rw [width, width, same]

theorem optional_append {α : Type} {write : α → Field} (injective : Function.Injective write) {first second : Option α}
    (present : first.isSome = second.isSome) {before before' : List Field}
    (same : before ++ (first.map write).toList = before' ++ (second.map write).toList) :
    before = before' ∧ first = second := by
  cases first <;> cases second <;> simp_all [injective.eq_iff]

theorem agree_iff {first second : IndexEntry} (same : first.shape = second.shape) :
    first.Agree second ↔ first.fields = second.fields := by
  constructor
  · rintro ⟨blockId, size, recordCount, metadataSize, time, crc64, corrupted, version⟩
    simp only [fields, blockId, size, recordCount, metadataSize, time, crc64, corrupted, version]
  · intro written
    obtain ⟨crcs, flags, versions⟩ : _ ∧ _ ∧ _ := by simpa only [shape, Prod.mk.injEq] using same
    have word : Function.Injective fun number : UInt64 => ((8, number.toNat) : Field) := fun one other numbers =>
      UInt64.toNat_inj.mp (congrArg Prod.snd numbers)
    have flag : Function.Injective fun flag : Bool => ((1, flag.toNat) : Field) := by decide
    -- the optional fields from the last one to the first
    unfold fields at written
    obtain ⟨written, version⟩ := optional_append word versions written
    obtain ⟨written, corrupted⟩ := optional_append flag flags written
    obtain ⟨written, crc64⟩ := optional_append word crcs written
    simp only [List.cons.injEq, Prod.mk.injEq, true_and, UInt64.toNat_inj, and_true] at written
    obtain ⟨blockId, size, recordCount, metadataSize, time⟩ := written
    exact ⟨blockId, size, recordCount, metadataSize, time, crc64, corrupted, version⟩

theorem regroups_iff_agree {saved changed : List IndexEntry} (same : saved.map shape = changed.map shape) :
    Regroups (saved.flatMap fields) (changed.flatMap fields) ↔ List.Forall₂ Agree saved changed := by
  have shapes : List.Forall₂ (fun first second => first.shape = second.shape) saved changed :=
    List.forall₂_map_left_iff.mp (List.forall₂_map_right_iff.mp (List.forall₂_eq_eq_eq ▸ same))
  have widths : (saved.flatMap fields).map Prod.fst = (changed.flatMap fields).map Prod.fst := by
    induction shapes with
    | nil => rfl
    | cons first _ ih => simp_all [widths_fields first]
  rw [regroups_same_widths (fits_all saved) (fits_all changed) widths]
  clear widths same
  induction shapes with
  | nil => simp
  | @cons first second rest rest' shape _ ih =>
    rw [List.flatMap_cons, List.flatMap_cons, List.forall₂_cons, agree_iff shape]
    have length : first.fields.length = second.fields.length := by
      simpa using congrArg List.length (widths_fields shape)
    refine ⟨fun written => ?_, fun ⟨head, tail⟩ => by rw [head, ih.mpr tail]⟩
    obtain ⟨head, tail⟩ := List.append_inj written length
    exact ⟨head, ih.mp tail⟩

/-- A changed list of blocks is refused exactly when its times can be converted and its numbers are not the digits of the
    saved ones in another grouping. -/
theorem changed_index_detected_iff [IndexCodec] (build : Build) (path : String) (saved changed : List IndexEntry)
    (saves : ∀ entry ∈ saved, entry.Readable build)
    (distinct : ∀ first second, digest build saved = some first → digest build changed = some second →
      Codec.crc64 first = Codec.crc64 second → first = second) :
    (Detected build path saved changed ↔ (∀ entry ∈ changed, entry.Readable build) ∧
      ¬ Regroups (saved.flatMap fields) (changed.flatMap fields)) ∧
    (saved.map shape = changed.map shape →
      (Detected build path saved changed ↔ (∀ entry ∈ changed, entry.Readable build) ∧
        ¬ List.Forall₂ Agree saved changed)) := by
  have detected := detected_iff path saved changed saves distinct
  exact ⟨detected, fun same => by rw [detected, regroups_iff_agree same]⟩

end IndexEntry

namespace IndexEntry

attribute [local instance] Wire.indexCodec

def plainEntry : IndexEntry :=
  { blockId := 1, size := 20, recordCount := 2, metadataSize := 60, latestRecordTime := some ⟨2, 10000⟩
    crc64 := some 7, compression := none, corrupted := none, version := none }

def grownEntry : IndexEntry := { plainEntry with size := 21 }

def compressedEntry : IndexEntry := { plainEntry with compression := some 1 }

def versionedEntry : IndexEntry := { plainEntry with crc64 := none, version := some 7 }

theorem changed_index_detected_iff_size : Detected .debug "entry/blocks.idx" [plainEntry] [grownEntry] := by
  have readable : ∀ entry ∈ [plainEntry], entry.Readable .debug := by
    simpa [Readable, plainEntry] using (by decide : Timestamp.Computes .debug ⟨2, 10000⟩)
  have readable' : ∀ entry ∈ [grownEntry], entry.Readable .debug := by
    simpa [Readable, plainEntry, grownEntry] using (by decide : Timestamp.Computes .debug ⟨2, 10000⟩)
  have distinct : ∀ first second, digest .debug [plainEntry] = some first → digest .debug [grownEntry] = some second →
      Codec.crc64 first = Codec.crc64 second → first = second := by
    intro first second isFirst isSecond same
    obtain ⟨-, rfl⟩ := digest_eq_some.mp isFirst
    obtain ⟨-, rfl⟩ := digest_eq_some.mp isSecond
    exact absurd same (by decide +kernel)
  refine ((changed_index_detected_iff .debug "entry/blocks.idx" [plainEntry] [grownEntry] readable distinct).2
    rfl).mpr ⟨readable', fun agree => ?_⟩
  cases agree with
  | cons head _ => exact absurd head.size (by decide)

theorem changed_fields_missed :
    [plainEntry] ≠ [compressedEntry] ∧ digest .release [plainEntry] = digest .release [compressedEntry] ∧
      [plainEntry] ≠ [versionedEntry] ∧ digest .release [plainEntry] = digest .release [versionedEntry] ∧
      ¬ Detected .release "entry/blocks.idx" [plainEntry] [compressedEntry] := by
  have same : digest .release [plainEntry] = digest .release [compressedEntry] := by decide +kernel
  refine ⟨by decide, same, by decide, by decide +kernel, ?_⟩
  rintro ⟨first, second, isFirst, isSecond, differ, -⟩
  rw [same, isSecond] at isFirst
  exact differ (Option.some.inj isFirst).symm

end IndexEntry

end ReductStore
