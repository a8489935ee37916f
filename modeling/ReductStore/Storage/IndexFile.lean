import ReductStore.Shared.BigEndian
import ReductStore.Shared.TreeMap
import ReductStore.Storage.Wire

set_option autoImplicit false

namespace ReductStore

open Std BigEndian TreeMap

structure IndexBlock where
  blockId : Nat
  size : Nat
  recordCount : Nat
  metadataSize : Nat
  latestRecordTime : Option Nat
  crc64 : Option UInt64
  compression : Option Nat
  corrupted : Option Bool
  version : Option Nat
  deriving DecidableEq

structure IndexProto where
  blocks : List IndexBlock
  crc64 : UInt64
  deriving DecidableEq

class IndexCodec extends Codec where
  encodeIndex : IndexProto → List UInt8
  decodeIndex : List UInt8 → Except String IndexProto

namespace IndexFile

abbrev Index := ExtTreeMap Nat IndexBlock

-- the compression is not part of the checksum
def blockDigest (block : IndexBlock) : List UInt8 :=
  toBytes block.blockId ++ toBytes block.size ++ toBytes block.recordCount ++ toBytes block.metadataSize ++
    toBytes (block.latestRecordTime.getD 0) ++ (block.crc64.map fun crc => toBytes crc.toNat).getD [] ++
    (block.corrupted.map fun corrupted => [if corrupted then 1 else 0]).getD [] ++ (block.version.map toBytes).getD []

def digest (blocks : List IndexBlock) : List UInt8 := blocks.flatMap blockDigest

theorem digest_ne_nil {blocks : List IndexBlock} (some : blocks ≠ []) : digest blocks ≠ [] := by
  cases blocks with
  | nil => exact absurd rfl some
  | cons block rest => simp [digest, blockDigest, toBytes]

inductive LoadResult where
  | ok (index : Index)
  | error (failure : ReductError)
  | panic

section Files

variable [IndexCodec]

def message (blocks : List IndexBlock) : IndexProto := { blocks, crc64 := Codec.crc64 (digest blocks) }

def save (blocks : List IndexBlock) : List UInt8 := IndexCodec.encodeIndex (message blocks)

def indexOf (blocks : List IndexBlock) : Index := blocks.foldl (fun index block => index.insert block.blockId block) ∅

def isCorrupted (path : String) : ReductError := internalServerError ("Block index \"" ++ path ++ "\" is corrupted")

def fromProto (path : String) (value : IndexProto) : LoadResult :=
  -- a block without a time ends the call in an unwrap
  if value.blocks.any (·.latestRecordTime.isNone) then .panic
  else if Codec.crc64 (digest value.blocks) ≠ value.crc64 then .error (isCorrupted path)
  else .ok (indexOf value.blocks)

/-- `Path::ends_with` compares whole components: no name of a descriptor is one of the extensions. -/
def hasBlockDescriptors (listing : List String) : Bool := listing.any fun name => name == ".meta" || name == ".meta.zst"

def tryLoad (path : String) (file : Option (List UInt8)) (listing : List String) : LoadResult :=
  match file with
  | none => .error (internalServerError ("Block index \"" ++ path ++ "\" not found"))
  | some content =>
    if content.length = 0 ∧ hasBlockDescriptors listing then
      .error (internalServerError ("Block index \"" ++ path ++ "\" is empty"))
    else
      match IndexCodec.decodeIndex content with
      | .error failure => .error (internalServerError ("Failed to decode block index \"" ++ path ++ "\": " ++ failure))
      | .ok value => fromProto path value

def restoreIndex (loaded : LoadResult) (rebuilt : Index) : LoadResult :=
  match loaded with
  | .ok index => .ok index
  | .error _ => .ok rebuilt
  | .panic => .panic

def Rejects (path : String) (content : List UInt8) (listing : List String) : Prop :=
  (∃ failure, tryLoad path (some content) listing = .error failure) ∧
    ∀ rebuilt, restoreIndex (tryLoad path (some content) listing) rebuilt = .ok rebuilt

theorem rejects_of_error {path : String} {content : List UInt8} {listing : List String} {failure : ReductError}
    (failed : tryLoad path (some content) listing = .error failure) : Rejects path content listing :=
  ⟨⟨failure, failed⟩, fun rebuilt => by rw [failed, restoreIndex]⟩

theorem rejects_undecodable (path : String) (content : List UInt8) (listing : List String) (failure : String)
    (undecodable : IndexCodec.decodeIndex content = .error failure) : Rejects path content listing := by
  by_cases empty : content.length = 0 ∧ hasBlockDescriptors listing
  · exact rejects_of_error (by rw [tryLoad, if_pos empty])
  · exact rejects_of_error (by rw [tryLoad, if_neg empty, undecodable])

theorem rejects_mismatch (path : String) (content : List UInt8) (listing : List String) (value : IndexProto)
    (decoded : IndexCodec.decodeIndex content = .ok value) (timed : ∀ block ∈ value.blocks, block.latestRecordTime ≠ none)
    (mismatch : Codec.crc64 (digest value.blocks) ≠ value.crc64) : Rejects path content listing := by
  by_cases empty : content.length = 0 ∧ hasBlockDescriptors listing
  · exact rejects_of_error (by rw [tryLoad, if_pos empty])
  · have complete : value.blocks.any (·.latestRecordTime.isNone) = false := by simpa using timed
    have failed : tryLoad path (some content) listing = .error (isCorrupted path) := by
      rw [tryLoad, if_neg empty, decoded]
      simp [fromProto, complete, mismatch]
    exact rejects_of_error failed

/-- A message is read back as it was written. What is left of one that is cut off between two fields
has the first blocks and no checksum; cut off elsewhere it is not decoded. -/
structure Encodes (value : IndexProto) : Prop where
  whole : IndexCodec.decodeIndex (IndexCodec.encodeIndex value) = .ok value
  cut : ∀ content, content <+: IndexCodec.encodeIndex value → content ≠ IndexCodec.encodeIndex value → content ≠ [] →
    (∃ failure, IndexCodec.decodeIndex content = .error failure) ∨
      ∃ count, 0 < count ∧ count ≤ value.blocks.length ∧
        IndexCodec.decodeIndex content = .ok { blocks := value.blocks.take count, crc64 := 0 }

variable {blocks : List IndexBlock}

theorem rejects_cut (path : String) (listing : List String) (timed : ∀ block ∈ blocks, block.latestRecordTime ≠ none)
    (encodes : Encodes (message blocks)) (sum : Codec.crc64 [] = 0)
    (free : ∀ count ≤ blocks.length, Codec.crc64 (digest (blocks.take count)) = Codec.crc64 [] →
      digest (blocks.take count) = [])
    (content : List UInt8) (part : content <+: save blocks) (proper : content ≠ save blocks) (begun : content ≠ []) :
    Rejects path content listing := by
  rcases encodes.cut content part proper begun with ⟨failure, undecodable⟩ | ⟨count, positive, bound, decoded⟩
  · exact rejects_undecodable path content listing failure undecodable
  · refine rejects_mismatch path content listing _ decoded (fun block member => ?_) ?_
    · exact timed block (List.mem_of_mem_take member)
    · -- the checksum of the cut message is the one of no blocks
      intro same
      have first : blocks.take count ≠ [] := by
        intro none
        have length := congrArg List.length none
        have within : count ≤ blocks.length := bound
        rw [List.length_take, List.length_nil] at length
        omega
      exact digest_ne_nil first (free count bound (same.trans sum.symm))

theorem tryLoad_save (path : String) (listing : List String) (timed : ∀ block ∈ blocks, block.latestRecordTime ≠ none)
    (encodes : Encodes (message blocks)) (begun : save blocks ≠ []) :
    tryLoad path (some (save blocks)) listing = .ok (indexOf blocks) := by
  have complete : blocks.any (·.latestRecordTime.isNone) = false := by simpa using timed
  have decoded : IndexCodec.decodeIndex (save blocks) = .ok (message blocks) := encodes.whole
  simp [tryLoad, begun, decoded, fromProto, message, complete]

/-- A file is refused if it does not decode or has another checksum than its blocks, in particular if a part of a saved
    index is missing at its end, the empty file apart. -/
theorem damaged_index_rejected (path : String) (listing : List String) (blocks : List IndexBlock)
    (timed : ∀ block ∈ blocks, block.latestRecordTime ≠ none) (encodes : Encodes (message blocks))
    (sum : Codec.crc64 [] = 0)
    (free : ∀ count ≤ blocks.length, Codec.crc64 (digest (blocks.take count)) = Codec.crc64 [] →
      digest (blocks.take count) = []) :
    (∀ content failure, IndexCodec.decodeIndex content = .error failure → Rejects path content listing) ∧
      (∀ content value, IndexCodec.decodeIndex content = .ok value →
        (∀ block ∈ value.blocks, block.latestRecordTime ≠ none) → Codec.crc64 (digest value.blocks) ≠ value.crc64 →
        Rejects path content listing) ∧
      (∀ content, content <+: save blocks → content ≠ save blocks → content ≠ [] → Rejects path content listing) ∧
      ∀ content index, content <+: save blocks → content ≠ [] → tryLoad path (some content) listing = .ok index →
        index = indexOf blocks := by
  refine ⟨fun content => rejects_undecodable path content listing, fun content => rejects_mismatch path content listing,
    fun content => rejects_cut path listing timed encodes sum free content, ?_⟩
  intro content index part begun loaded
  by_cases whole : content = save blocks
  · subst whole
    rw [tryLoad_save path listing timed encodes begun] at loaded
    exact (LoadResult.ok.inj loaded).symm
  · obtain ⟨⟨failure, failed⟩, _⟩ := rejects_cut path listing timed encodes sum free content part whole begun
    rw [failed] at loaded
    cases loaded

end Files

end IndexFile

namespace Wire

open Protobuf

def optionalField (number : Nat) (value : Option Nat) : List UInt8 := (value.map (varintField number)).getD []

def encodeIndexBlock (block : IndexBlock) : List UInt8 :=
  scalarField 1 block.blockId ++ scalarField 2 block.size ++ scalarField 3 block.recordCount ++
    scalarField 4 block.metadataSize ++ (block.latestRecordTime.map fun time => bytesField 5 (encodeTimestamp time)).getD [] ++
    optionalField 6 (block.crc64.map UInt64.toNat) ++ optionalField 7 block.compression ++
    optionalField 8 (block.corrupted.map Bool.toNat) ++ optionalField 9 block.version

def optionalOf (found : List (Nat × Value)) (number : Nat) : Option Nat :=
  (found.filterMap fun field =>
    match field with
    | (key, .scalar value) => if key = number then some value else none
    | (_, .bytes _) => none).getLast?

def decodeIndexBlock (bytes : List UInt8) : Option IndexBlock := do
  let found ← fields bytes
  let times ← (messagesOf found 5).mapM decodeTimestamp
  pure { blockId := scalarOf found 1, size := scalarOf found 2, recordCount := scalarOf found 3
         metadataSize := scalarOf found 4, latestRecordTime := times.getLast?
         crc64 := (optionalOf found 6).map UInt64.ofNat, compression := optionalOf found 7
         corrupted := (optionalOf found 8).map (· ≠ 0), version := optionalOf found 9 }

def blockField (block : IndexBlock) : Nat × Value := (1, .bytes (encodeIndexBlock block))

def indexFields (value : IndexProto) : List (Nat × Value) :=
  value.blocks.map blockField ++ if value.crc64 = 0 then [] else [(2, .scalar value.crc64.toNat)]

def encodeIndex (value : IndexProto) : List UInt8 := encodeFields (indexFields value)

def ofFields (found : List (Nat × Value)) : Option IndexProto := do
  let blocks ← (messagesOf found 1).mapM decodeIndexBlock
  pure { blocks, crc64 := UInt64.ofNat (scalarOf found 2) }

def decodeIndex (content : List UInt8) : Except String IndexProto :=
  match (fields content).bind ofFields with
  | some value => .ok value
  | none => .error "failed to decode Protobuf message"

@[reducible] def indexCodec : IndexCodec := { codec with encodeIndex, decodeIndex }

attribute [local instance] indexCodec

section Index

theorem length_varintField (number value : Nat) : (varintField number value).length ≤ 20 := by
  have key := length_varint 10 (number * 8)
  have size := length_varint 10 value
  rw [varintField, encodeVarint, encodeVarint, List.length_append]
  omega

theorem length_scalarField (number value : Nat) : (scalarField number value).length ≤ 20 := by
  unfold scalarField
  split
  · simp
  · exact length_varintField number value

theorem length_optionalField (number : Nat) (value : Option Nat) : (optionalField number value).length ≤ 20 := by
  cases value with
  | none => simp [optionalField]
  | some value => exact length_varintField number value

theorem length_timeField (time : Option Nat) :
    ((time.map fun time => bytesField 5 (encodeTimestamp time)).getD []).length ≤ 60 := by
  cases time with
  | none => simp
  | some time =>
    have key := length_varint 10 (5 * 8 + 2)
    have size := length_varint 10 (encodeTimestamp time).length
    have seconds := length_scalarField 1 (time / 1000000)
    have nanos := length_scalarField 2 (time % 1000000 * 1000)
    simp only [Option.map_some, Option.getD_some, bytesField, encodeVarint, encodeTimestamp, List.length_append] at *
    omega

theorem length_encodeIndexBlock (block : IndexBlock) : (encodeIndexBlock block).length ≤ 220 := by
  have first := length_scalarField 1 block.blockId
  have second := length_scalarField 2 block.size
  have third := length_scalarField 3 block.recordCount
  have fourth := length_scalarField 4 block.metadataSize
  have time := length_timeField block.latestRecordTime
  have crc := length_optionalField 6 (block.crc64.map UInt64.toNat)
  have compression := length_optionalField 7 block.compression
  have corrupted := length_optionalField 8 (block.corrupted.map Bool.toNat)
  have version := length_optionalField 9 block.version
  rw [encodeIndexBlock]
  simp only [List.length_append]
  omega

theorem indexFields_fit (value : IndexProto) : ∀ field ∈ indexFields value, Fits field := by
  intro field member
  rcases List.mem_append.mp member with listed | sum
  · obtain ⟨block, _, rfl⟩ := List.mem_map.mp listed
    have length := length_encodeIndexBlock block
    exact ⟨by decide, by omega⟩
  · split at sum
    · simp at sum
    · obtain rfl := List.mem_singleton.mp sum
      exact ⟨by decide, UInt64.toNat_lt _⟩

theorem fields_encodeIndex (value : IndexProto) : fields (encodeIndex value) = some (indexFields value) :=
  fields_encodeFields (indexFields value) (indexFields_fit value)

theorem messagesOf_blocks (blocks : List IndexBlock) :
    messagesOf (blocks.map blockField) 1 = blocks.map encodeIndexBlock := by
  simp [messagesOf, List.filterMap_map, blockField, Function.comp_def]

theorem scalarOf_blocks (blocks : List IndexBlock) (number : Nat) : scalarOf (blocks.map blockField) number = 0 := by
  induction blocks with
  | nil => rfl
  | cons block rest ih => simpa [scalarOf, blockField] using ih

theorem mapM_decodeIndexBlock (blocks : List IndexBlock)
    (readable : ∀ block ∈ blocks, decodeIndexBlock (encodeIndexBlock block) = some block) :
    (blocks.map encodeIndexBlock).mapM decodeIndexBlock = some blocks := by
  induction blocks with
  | nil => rfl
  | cons block rest ih =>
    have later := ih fun other member => readable other (List.mem_cons_of_mem _ member)
    simp [List.mapM_cons, readable block (by simp), later]

theorem ofFields_blocks (blocks : List IndexBlock)
    (readable : ∀ block ∈ blocks, decodeIndexBlock (encodeIndexBlock block) = some block) :
    ofFields (blocks.map blockField) = some { blocks, crc64 := 0 } := by
  simp [ofFields, messagesOf_blocks, scalarOf_blocks, mapM_decodeIndexBlock blocks readable]

theorem ofFields_indexFields (value : IndexProto)
    (readable : ∀ block ∈ value.blocks, decodeIndexBlock (encodeIndexBlock block) = some block) :
    ofFields (indexFields value) = some value := by
  obtain ⟨blocks, crc⟩ := value
  by_cases zero : crc = 0
  · subst zero
    simpa [indexFields] using ofFields_blocks blocks readable
  · have sums : scalarOf (blocks.map blockField ++ [(2, .scalar crc.toNat)]) 2 = crc.toNat := by
      simp [scalarOf, List.foldl_append]
    have listed : messagesOf (blocks.map blockField ++ [(2, .scalar crc.toNat)]) 1 = blocks.map encodeIndexBlock := by
      rw [← messagesOf_blocks]
      simp [messagesOf]
    simp [indexFields, zero, ofFields, sums, listed, mapM_decodeIndexBlock blocks readable]

theorem encodes_index (value : IndexProto)
    (readable : ∀ block ∈ value.blocks, decodeIndexBlock (encodeIndexBlock block) = some block) :
    IndexFile.Encodes value where
  whole := by
    change decodeIndex (encodeIndex value) = _
    rw [decodeIndex, fields_encodeIndex, Option.bind_some, ofFields_indexFields value readable]
  cut content part proper begun := by
    change (∃ failure, decodeIndex content = .error failure) ∨ ∃ count, 0 < count ∧ count ≤ value.blocks.length ∧
      decodeIndex content = .ok { blocks := value.blocks.take count, crc64 := 0 }
    rcases fields_cut (indexFields value) (indexFields_fit value) content part with none | ⟨count, whole, decoded⟩
    · exact Or.inl ⟨_, by rw [decodeIndex, none, Option.bind_none]⟩
    · have positive : 0 < count := by
        rcases Nat.eq_zero_or_pos count with rfl | positive
        · exact absurd whole begun
        · exact positive
      have bound : count ≤ value.blocks.length := by
        by_contra beyond
        have most : (indexFields value).length ≤ value.blocks.length + 1 := by
          rw [indexFields, List.length_append, List.length_map]
          split <;> simp
        rw [List.take_of_length_le (by omega)] at whole
        exact proper whole
      have taken : (indexFields value).take count = (value.blocks.take count).map blockField := by
        rw [indexFields, List.take_append_of_le_length (by simpa using bound), List.map_take]
      refine Or.inr ⟨count, positive, bound, ?_⟩
      rw [decodeIndex, decoded, taken, Option.bind_some,
        ofFields_blocks _ fun block member => readable block (List.mem_of_mem_take member)]

end Index

end Wire

namespace IndexFile

attribute [local instance] Wire.indexCodec

open Protobuf Wire

def firstBlock : IndexBlock :=
  { blockId := 1, size := 20, recordCount := 2, metadataSize := 60, latestRecordTime := some 2000010
    crc64 := some 7, compression := none, corrupted := none, version := some 1 }

theorem readable_firstBlock : ∀ block ∈ [firstBlock], decodeIndexBlock (encodeIndexBlock block) = some block := by
  intro block member
  obtain rfl := List.mem_singleton.mp member
  decide +kernel

theorem damaged_index_rejected_at_block :
    Rejects "entry/blocks.idx" ((save [firstBlock]).take 5) ["1.meta", "1.blk", "blocks.idx"] := by
  have timed : ∀ block ∈ [firstBlock], block.latestRecordTime ≠ none := by decide
  have free : ∀ count ≤ [firstBlock].length, Codec.crc64 (digest ([firstBlock].take count)) = Codec.crc64 [] →
      digest ([firstBlock].take count) = [] := by
    decide +kernel
  have results := damaged_index_rejected "entry/blocks.idx" ["1.meta", "1.blk", "blocks.idx"] [firstBlock] timed
    (encodes_index (message [firstBlock]) readable_firstBlock) (by decide +kernel) free
  exact results.2.2.1 _ (List.take_prefix _ _) (by decide +kernel) (by decide +kernel)

def extendedFile : List UInt8 := save [firstBlock] ++ [0x18, 0x00]

theorem extended_index_accepted :
    (∀ blocks, save blocks ≠ extendedFile) ∧
      tryLoad "entry/blocks.idx" (some extendedFile) ["1.meta", "1.blk", "blocks.idx"] = .ok (indexOf [firstBlock]) := by
  constructor
  · intro blocks same
    have known := fields_encodeIndex (message blocks)
    rw [show encodeIndex (message blocks) = extendedFile from same] at known
    have unknown : ((fields extendedFile).getD []).map Prod.fst = [1, 2, 3] := by decide +kernel
    rw [known, Option.getD_some] at unknown
    have third : 3 ∈ (indexFields (message blocks)).map Prod.fst := by
      rw [unknown]
      simp
    obtain ⟨field, member, number⟩ := List.mem_map.mp third
    rcases List.mem_append.mp member with listed | sum
    · obtain ⟨block, _, rfl⟩ := List.mem_map.mp listed
      simp [blockField] at number
    · split at sum
      · simp at sum
      · obtain rfl := List.mem_singleton.mp sum
        simp at number
  · have decoded : decodeIndex extendedFile = .ok (message [firstBlock]) := by decide +kernel
    have loaded : IndexCodec.decodeIndex extendedFile = .ok (message [firstBlock]) := decoded
    have begun : ¬ (extendedFile.length = 0 ∧ hasBlockDescriptors ["1.meta", "1.blk", "blocks.idx"]) := by decide +kernel
    rw [tryLoad, if_neg begun, loaded]
    simp [fromProto, message, firstBlock]

end IndexFile

end ReductStore
