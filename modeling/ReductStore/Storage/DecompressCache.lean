import ReductStore.Cache
import ReductStore.Shared.Machine
import ReductStore.Query.NextSections

set_option autoImplicit false

namespace ReductStore

inductive DecompressedFileType where
  | data
  | descriptor
  deriving DecidableEq

def DecompressedFileType.asExtension : DecompressedFileType → String
  | .data => "blk"
  | .descriptor => "meta"

abbrev DecompressedKey := Nat × DecompressedFileType

structure TempPath where
  key : DecompressedKey
  unique : Nat
  deriving DecidableEq

class TempFiles where
  tempDir : String
  entryHash : DecompressedKey → Nat

def TempPath.display [TempFiles] (path : TempPath) : String :=
  TempFiles.tempDir ++ "/" ++ toString (TempFiles.entryHash path.key) ++ "_" ++ toString path.key.1 ++ "_" ++
    toString path.unique ++ "." ++ path.key.2.asExtension

structure DecompressCache where
  cache : Caching.Cache DecompressedKey TempPath
  files : TempPath → Option File

structure CacheClock where
  started : Nat
  finished : Nat
  unique : Nat

namespace DecompressCache

open Caching

def new (size ttl : Nat) : DecompressCache := { cache := { store := [], size, ttl }, files := fun _ => none }

def default : DecompressCache := new 64 30000000000

def cleanupTmp (files : TempPath → Option File) (paths : List TempPath) : TempPath → Option File :=
  fun path => if path ∈ paths then none else files path

def discard (state : DecompressCache) (now : Nat) : DecompressCache :=
  let (old, cache) := state.cache.discardOldDescriptors fun _ => now
  { cache, files := cleanupTmp state.files (old.map Prod.snd) }

abbrev Order := Arrangement (DecompressedKey × ExpiringValue TempPath)

def getOrDecompress (state : DecompressCache) (key : DecompressedKey) (content : Except ReductError File)
    (clock : CacheClock) (order : Order) : Except ReductError TempPath × DecompressCache :=
  let state := state.discard clock.started
  match state.cache.get key clock.started with
  | (some path, cache) => (.ok path, { state with cache })
  | (none, _) =>
    match content with
    | .error failure => (.error failure, state)
    | .ok bytes =>
      let path := { key, unique := clock.unique }
      let files := Function.update state.files path (some bytes)
      let (evicted, cache) := state.cache.insert key path clock.finished (fun _ => clock.finished) order
      (.ok path, { cache, files := cleanupTmp files (evicted.map Prod.snd) })

def invalidateKey (state : DecompressCache) (key : DecompressedKey) : DecompressCache :=
  let (path, cache) := state.cache.remove key
  { cache, files := cleanupTmp state.files path.toList }

def invalidate (state : DecompressCache) (blockId : Nat) : DecompressCache :=
  (state.invalidateKey (blockId, .data)).invalidateKey (blockId, .descriptor)

end DecompressCache

structure TempReader where
  blockId : Nat
  path : TempPath
  offset : Nat
  contentSize : Nat
  position : Nat
  deriving DecidableEq

def TempReader.readChunk [TempFiles] (reader : TempReader) (files : TempPath → Option File) (limit : Nat) :
    Option (Except ReductError (List UInt8)) × TempReader :=
  let size := min (reader.contentSize - reader.position) maxIoBufferSize
  if size = 0 then (none, reader)
  else
    match files reader.path with
    | none =>
      (some (.error (internalServerError ("Failed to read record chunk: [InternalServerError] File \"" ++
        reader.path.display ++ "\" does not exist"))), reader)
    | some content =>
      let start := reader.offset + reader.position
      let bytes := (File.range content start (start + size)).take (limit + 1)
      if bytes.length = 0 then (some (.error (internalServerError "Failed to read record chunk: EOF")), reader)
      else (some (.ok bytes), { reader with position := reader.position + bytes.length })

structure Decompressing where
  state : DecompressCache
  contents : DecompressedKey → File
  readers : List TempReader
  failures : List ReductError

inductive DecompressEvent where
  | resolveData (blockId offset contentSize : Nat) (failure : Option ReductError) (clock : CacheClock)
      (order : DecompressCache.Order)
  | resolveDescriptor (blockId : Nat) (failure : Option ReductError) (clock : CacheClock) (order : DecompressCache.Order)
  | checkExists (index : Nat)
  | readChunk (index limit : Nat)
  | close (index : Nat)
  | invalidate (blockId : Nat) (contents : DecompressedFileType → File)

namespace Decompressing

open Caching DecompressCache

def start (state : DecompressCache) (contents : DecompressedKey → File) : Decompressing :=
  { state, contents, readers := [], failures := [] }

def decompressed (system : Decompressing) (key : DecompressedKey) : Option ReductError → Except ReductError File
  | none => .ok (system.contents key)
  | some failure => .error failure

def resolve (system : Decompressing) (key : DecompressedKey) (failure : Option ReductError) (clock : CacheClock)
    (order : Order) : Except ReductError TempPath × DecompressCache :=
  system.state.getOrDecompress key (system.decompressed key failure) clock order

def apply [TempFiles] (system : Decompressing) : DecompressEvent → Decompressing
  | .resolveData blockId offset contentSize failure clock order =>
    match system.resolve (blockId, .data) failure clock order with
    | (.error _, state) => { system with state }
    | (.ok path, state) =>
      { system with state, readers := system.readers ++ [{ blockId, path, offset, contentSize, position := 0 }] }
  | .resolveDescriptor blockId failure clock order =>
    { system with state := (system.resolve (blockId, .descriptor) failure clock order).2 }
  -- the end of `try_new`, which other calls of `get_or_decompress` can come before
  | .checkExists index =>
    match system.readers[index]? with
    | none => system
    | some reader =>
      if reader.contentSize > 0 ∧ system.state.files reader.path = none then
        { system with
          readers := system.readers.eraseIdx index
          failures := system.failures ++ [notFound ("Data block " ++ reader.path.display ++ " not found")] }
      else system
  | .readChunk index limit =>
    match system.readers[index]? with
    | none => system
    | some reader =>
      let (chunk, next) := reader.readChunk system.state.files limit
      { system with
        readers := system.readers.set index next
        failures := match chunk with
          | some (.error failure) => system.failures ++ [failure]
          | _ => system.failures }
  | .close index => { system with readers := system.readers.eraseIdx index }
  -- a block is written to, and what a later compression of it gives may be another file
  | .invalidate blockId contents =>
    { system with
      state := system.state.invalidate blockId
      contents := fun key => if key.1 = blockId then contents key.2 else system.contents key }

def Inside (system : Decompressing) : DecompressEvent → Prop
  | .resolveData blockId offset contentSize _ _ _ => offset + contentSize ≤ (system.contents (blockId, .data)).length
  | _ => True

def Roomy (system : Decompressing) (key : DecompressedKey) (clock : CacheClock) : Prop :=
  ((∃ entry ∈ system.state.cache.store, entry.1 = key) ∨
      system.state.cache.store.length < system.state.cache.size) ∧
    ∀ reader ∈ system.readers, ∀ entry ∈ system.state.cache.store, entry.1 = (reader.blockId, .data) →
      clock.started - entry.2.lastAccess ≤ system.state.cache.ttl ∧
        clock.finished - entry.2.lastAccess ≤ system.state.cache.ttl

def Spares (system : Decompressing) : DecompressEvent → Prop
  | .resolveData blockId _ _ _ clock _ => system.Roomy (blockId, .data) clock
  | .resolveDescriptor blockId _ clock _ => system.Roomy (blockId, .descriptor) clock
  | .invalidate blockId _ => ∀ reader ∈ system.readers, reader.blockId ≠ blockId
  | _ => True

end Decompressing

namespace DecompressCache

open Caching

structure Filed (state : DecompressCache) (contents : DecompressedKey → File) : Prop where
  distinct : (state.cache.store.map Prod.fst).Nodup
  fits : state.cache.store.length ≤ state.cache.size
  named : ∀ entry ∈ state.cache.store, entry.2.value.key = entry.1
  stored : ∀ entry ∈ state.cache.store, state.files entry.2.value = some (contents entry.1)

def Has (state : DecompressCache) (key : DecompressedKey) (path : TempPath) : Prop :=
  ∃ entry ∈ state.cache.store, entry.1 = key ∧ entry.2.value = path

variable {state : DecompressCache} {contents : DecompressedKey → File}

theorem discard_eq (fits : state.cache.store.length ≤ state.cache.size) (now : Nat) :
    state.discard now =
      { cache := { state.cache with store := state.cache.store.filter (! state.cache.isStale (fun _ => now) ·) }
        files := cleanupTmp state.files
          ((Cache.pairs (state.cache.store.filter (state.cache.isStale fun _ => now))).map Prod.snd) } := by
  rw [discard, Cache.discard_within fits]

theorem Filed.discard (filed : state.Filed contents) (now : Nat) : (state.discard now).Filed contents := by
  rw [discard_eq filed.fits]
  refine ⟨?_, ?_, ?_, ?_⟩
  · exact filed.distinct.sublist (List.filter_sublist.map _)
  · exact (List.length_filter_le _ _).trans filed.fits
  · exact fun entry member => filed.named entry (List.mem_filter.mp member).1
  · intro entry member
    obtain ⟨present, live⟩ := List.mem_filter.mp member
    have kept : entry.2.value ∉
        (Cache.pairs (state.cache.store.filter (state.cache.isStale fun _ => now))).map Prod.snd := by
      intro deleted
      rw [Cache.pairs, List.map_map] at deleted
      obtain ⟨other, old, same⟩ := List.mem_map.mp deleted
      dsimp only [Function.comp_apply] at same
      obtain ⟨stored, expired⟩ := List.mem_filter.mp old
      have keys : other.1 = entry.1 := by rw [← filed.named other stored, same, filed.named entry present]
      rw [List.inj_on_of_nodup_map filed.distinct stored present keys] at expired
      simp [expired] at live
    simp only [cleanupTmp, if_neg kept]
    exact filed.stored entry present

theorem Filed.discard_keeps (filed : state.Filed contents) {now : Nat}
    {entry : DecompressedKey × ExpiringValue TempPath} (member : entry ∈ state.cache.store)
    (fresh : now - entry.2.lastAccess ≤ state.cache.ttl) : entry ∈ (state.discard now).cache.store := by
  rw [discard_eq filed.fits]
  refine List.mem_filter.mpr ⟨member, ?_⟩
  simpa [Cache.isStale] using fresh

theorem discard_limits (fits : state.cache.store.length ≤ state.cache.size) (now : Nat) :
    (state.discard now).cache.size = state.cache.size ∧ (state.discard now).cache.ttl = state.cache.ttl := by
  rw [discard_eq fits]
  exact ⟨rfl, rfl⟩

theorem discard_subset (fits : state.cache.store.length ≤ state.cache.size) (now : Nat) :
    (state.discard now).cache.store.Sublist state.cache.store := by
  rw [discard_eq fits]
  exact List.filter_sublist

def entered (state : DecompressCache) (key : DecompressedKey) (bytes : File) (clock : CacheClock) (order : Order) :
    DecompressCache :=
  { cache := state.cache.placed key { key, unique := clock.unique } clock.finished order
    files := Function.update state.files { key, unique := clock.unique } (some bytes) }

theorem getOrDecompress_miss {key : DecompressedKey} {content : Except ReductError File} {clock : CacheClock}
    {order : Order} (missing : ∀ entry ∈ (state.discard clock.started).cache.store, entry.1 ≠ key) :
    state.getOrDecompress key content clock order =
      match content with
      | .error failure => (.error failure, state.discard clock.started)
      | .ok bytes => (.ok { key, unique := clock.unique },
          ((state.discard clock.started).entered key bytes clock order).discard clock.finished) := by
  have none : (state.discard clock.started).cache.store.find? (·.1 = key) = none := by
    simpa [List.find?_eq_none] using missing
  simp only [getOrDecompress, Cache.get, none, Option.map_none]
  rfl

def touched (state : DecompressCache) (key : DecompressedKey) (now : Nat) : DecompressCache :=
  { state with cache := (state.cache.get key now).2 }

theorem mem_touched {key : DecompressedKey} {now : Nat} {other : DecompressedKey} {path : TempPath} :
    (state.touched key now).Has other path ↔ state.Has other path := by
  simp only [Has, touched, Cache.get, List.mem_map]
  constructor
  · rintro ⟨_, ⟨entry, member, rfl⟩, same, value⟩
    refine ⟨entry, member, ?_⟩
    split_ifs at same value <;> exact ⟨same, value⟩
  · rintro ⟨entry, member, same, value⟩
    refine ⟨_, ⟨entry, member, rfl⟩, ?_⟩
    split_ifs <;> exact ⟨same, value⟩

theorem Filed.touched (filed : state.Filed contents) (key : DecompressedKey) (now : Nat) :
    (state.touched key now).Filed contents := by
  have keys : (state.touched key now).cache.store.map Prod.fst = state.cache.store.map Prod.fst := by
    rw [← Cache.keys_pairs, DecompressCache.touched, Cache.pairs_get, Cache.keys_pairs]
  have entries (entry : DecompressedKey × ExpiringValue TempPath) (member : entry ∈ (state.touched key now).cache.store) :
      ∃ old ∈ state.cache.store, old.1 = entry.1 ∧ old.2.value = entry.2.value :=
    mem_touched.mp ⟨entry, member, rfl, rfl⟩
  refine ⟨keys ▸ filed.distinct, ?_, ?_, ?_⟩
  · simpa [DecompressCache.touched, Cache.get] using filed.fits
  · intro entry member
    obtain ⟨old, present, same, value⟩ := entries entry member
    rw [← same, ← value]
    exact filed.named old present
  · intro entry member
    obtain ⟨old, present, same, value⟩ := entries entry member
    rw [← same, ← value]
    exact filed.stored old present

theorem getOrDecompress_hit {key : DecompressedKey} (content : Except ReductError File) {clock : CacheClock}
    (order : Order) (present : ∃ entry ∈ (state.discard clock.started).cache.store, entry.1 = key) :
    ∃ path, (state.discard clock.started).Has key path ∧
      state.getOrDecompress key content clock order = (.ok path, (state.discard clock.started).touched key clock.started) := by
  cases found : (state.discard clock.started).cache.store.find? (·.1 = key) with
  | none =>
    obtain ⟨entry, member, same⟩ := present
    have := List.find?_eq_none.mp found entry member
    simp [same] at this
  | some entry =>
    refine ⟨entry.2.value, ⟨entry, List.mem_of_find?_eq_some found, by simpa using List.find?_some found, rfl⟩, ?_⟩
    simp only [getOrDecompress, Cache.get, found, Option.map_some, DecompressCache.touched]

theorem Filed.entered (filed : state.Filed contents) {key : DecompressedKey}
    (missing : ∀ entry ∈ state.cache.store, entry.1 ≠ key) (room : state.cache.store.length < state.cache.size)
    (clock : CacheClock) (order : Order) : (state.entered key (contents key) clock order).Filed contents := by
  have perm : (state.entered key (contents key) clock order).cache.store.Perm _ := Cache.placed_perm _ _ _ _
  have members (entry : DecompressedKey × ExpiringValue TempPath)
      (member : entry ∈ (state.entered key (contents key) clock order).cache.store) :
      entry = (key, { value := { key, unique := clock.unique }, lastAccess := clock.finished }) ∨
        entry ∈ state.cache.store :=
    (List.mem_cons.mp (perm.mem_iff.mp member)).imp id List.mem_of_mem_filter
  refine ⟨Cache.placed_distinct filed.distinct _ _ _ _, ?_, ?_, ?_⟩
  · rw [perm.length_eq, List.length_cons]
    exact (Nat.succ_le_succ (List.length_filter_le _ _)).trans room
  · intro entry member
    rcases members entry member with rfl | old
    · rfl
    · exact filed.named entry old
  · intro entry member
    rcases members entry member with rfl | old
    · simp [DecompressCache.entered]
    · have different : entry.2.value ≠ { key, unique := clock.unique } := by
        intro same
        have := filed.named entry old
        rw [same] at this
        exact missing entry old this.symm
      simp only [DecompressCache.entered, Function.update_of_ne different]
      exact filed.stored entry old

theorem entered_old {key : DecompressedKey} {bytes : File} {clock : CacheClock} {order : Order}
    {entry : DecompressedKey × ExpiringValue TempPath} (member : entry ∈ state.cache.store) (other : entry.1 ≠ key) :
    entry ∈ (state.entered key bytes clock order).cache.store := by
  refine (order.perm _).mem_iff.mpr (List.mem_cons_of_mem _ (List.mem_filter.mpr ⟨member, ?_⟩))
  simpa using other

theorem entered_new (state : DecompressCache) (key : DecompressedKey) (bytes : File) (clock : CacheClock) (order : Order) :
    (key, { value := { key, unique := clock.unique }, lastAccess := clock.finished }) ∈
      (state.entered key bytes clock order).cache.store :=
  (order.perm _).mem_iff.mpr List.mem_cons_self

theorem Filed.getOrDecompress (filed : state.Filed contents) {key : DecompressedKey} {content : Except ReductError File}
    (decompresses : ∀ bytes, content = .ok bytes → bytes = contents key) (clock : CacheClock) (order : Order)
    (room : (∃ entry ∈ state.cache.store, entry.1 = key) ∨ state.cache.store.length < state.cache.size) :
    (state.getOrDecompress key content clock order).2.Filed contents ∧
      (∀ path, (state.getOrDecompress key content clock order).1 = .ok path →
        (state.getOrDecompress key content clock order).2.Has key path) ∧
      ∀ entry ∈ state.cache.store, clock.started - entry.2.lastAccess ≤ state.cache.ttl →
        clock.finished - entry.2.lastAccess ≤ state.cache.ttl →
        (state.getOrDecompress key content clock order).2.Has entry.1 entry.2.value := by
  have first := filed.discard clock.started
  have limits := discard_limits filed.fits clock.started
  by_cases present : ∃ entry ∈ (state.discard clock.started).cache.store, entry.1 = key
  · obtain ⟨path, has, result⟩ := getOrDecompress_hit content order present
    rw [result]
    refine ⟨first.touched key clock.started, ?_, ?_⟩
    · rintro _ ⟨⟩
      exact mem_touched.mpr has
    · intro entry member fresh _
      exact mem_touched.mpr ⟨entry, filed.discard_keeps member fresh, rfl, rfl⟩
  · have missing : ∀ entry ∈ (state.discard clock.started).cache.store, entry.1 ≠ key :=
      fun entry member same => present ⟨entry, member, same⟩
    rw [getOrDecompress_miss missing]
    cases content with
    | error failure =>
      refine ⟨first, ?_, fun entry member fresh _ => ⟨entry, filed.discard_keeps member fresh, rfl, rfl⟩⟩
      intro path absent
      cases absent
    | ok bytes =>
      obtain rfl := decompresses bytes rfl
      have shorter : (state.discard clock.started).cache.store.length < (state.discard clock.started).cache.size := by
        have sub := discard_subset filed.fits clock.started
        rw [limits.1]
        rcases room with ⟨entry, member, same⟩ | free
        · -- the entry with the key was too old, so that there is one file less
          refine lt_of_lt_of_le (lt_of_le_of_ne sub.length_le fun equal => ?_) filed.fits
          rw [sub.eq_of_length equal] at missing
          exact missing entry member same
        · exact sub.length_le.trans_lt free
      have second := first.entered missing shorter clock order
      refine ⟨second.discard clock.finished, ?_, ?_⟩
      · rintro _ ⟨⟩
        exact ⟨_, second.discard_keeps (entered_new _ key _ clock order) (by simp), rfl, rfl⟩
      · intro entry member fresh late
        have live := filed.discard_keeps member fresh
        refine ⟨entry, second.discard_keeps (entered_old live (missing entry live)) ?_, rfl, rfl⟩
        exact late.trans_eq limits.2.symm

theorem Filed.invalidateKey (filed : state.Filed contents) (key : DecompressedKey) :
    (state.invalidateKey key).Filed contents := by
  refine ⟨filed.distinct.sublist (List.filter_sublist.map _), (List.length_filter_le _ _).trans filed.fits,
    fun entry member => filed.named entry (List.mem_filter.mp member).1, ?_⟩
  intro entry member
  obtain ⟨present, other⟩ := List.mem_filter.mp member
  simp only [DecompressCache.invalidateKey, Cache.remove, cleanupTmp]
  rw [if_neg, filed.stored entry present]
  intro deleted
  obtain ⟨removed, found, same⟩ := Option.map_eq_some_iff.mp (Option.mem_toList.mp deleted)
  have keys : removed.1 = key := by simpa using List.find?_some found
  have stored := List.mem_of_find?_eq_some found
  have : entry.1 = key := by rw [← filed.named entry present, ← same, filed.named removed stored, keys]
  simp [this] at other

theorem has_invalidateKey {key other : DecompressedKey} {path : TempPath} (has : state.Has other path)
    (different : other ≠ key) : (state.invalidateKey key).Has other path := by
  obtain ⟨entry, member, same, value⟩ := has
  refine ⟨entry, List.mem_filter.mpr ⟨member, ?_⟩, same, value⟩
  simpa [same] using different

theorem invalidate_other {blockId : Nat} {entry : DecompressedKey × ExpiringValue TempPath}
    (member : entry ∈ (state.invalidate blockId).cache.store) : entry.1.1 ≠ blockId := by
  obtain ⟨rest, noDescriptor⟩ := List.mem_filter.mp member
  obtain ⟨-, noData⟩ := List.mem_filter.mp rest
  intro same
  obtain ⟨⟨block, fileType⟩, value⟩ := entry
  cases fileType
  · simp [← same] at noData
  · simp [← same] at noDescriptor

end DecompressCache

namespace Decompressing

open Caching DecompressCache

structure Leased (system : Decompressing) : Prop extends system.state.Filed system.contents where
  held : ∀ reader ∈ system.readers, system.state.Has (reader.blockId, .data) reader.path
  inside : ∀ reader ∈ system.readers,
    reader.offset + reader.contentSize ≤ (system.contents (reader.blockId, .data)).length
  calm : system.failures = []

variable {system : Decompressing}

theorem Leased.file (leased : system.Leased) {reader : TempReader} (member : reader ∈ system.readers) :
    system.state.files reader.path = some (system.contents (reader.blockId, .data)) := by
  obtain ⟨entry, present, same, value⟩ := leased.held reader member
  rw [← value, ← same]
  exact leased.stored entry present

theorem Leased.resolve (leased : system.Leased) {key : DecompressedKey} {clock : CacheClock}
    (roomy : system.Roomy key clock) (failure : Option ReductError) (order : Order) :
    (system.resolve key failure clock order).2.Filed system.contents ∧
      (∀ path, (system.resolve key failure clock order).1 = .ok path →
        (system.resolve key failure clock order).2.Has key path) ∧
      ∀ reader ∈ system.readers, (system.resolve key failure clock order).2.Has (reader.blockId, .data) reader.path := by
  have decompresses : ∀ bytes, system.decompressed key failure = .ok bytes → bytes = system.contents key := by
    intro bytes
    cases failure <;> simp [decompressed, eq_comm]
  obtain ⟨filed, returned, kept⟩ := leased.toFiled.getOrDecompress decompresses clock order roomy.1
  refine ⟨filed, returned, fun reader member => ?_⟩
  obtain ⟨entry, present, same, value⟩ := leased.held reader member
  obtain ⟨started, finished⟩ := roomy.2 reader member entry present same
  have has := kept entry present started finished
  rwa [same, value] at has

section Reads

variable [TempFiles]

theorem readChunk_file {reader : TempReader} {files : TempPath → Option File} {content : File}
    (file : files reader.path = some content) (inside : reader.offset + reader.contentSize ≤ content.length) (limit : Nat) :
    ((reader.readChunk files limit).1 = none ∨ ∃ bytes, (reader.readChunk files limit).1 = some (.ok bytes) ∧
      bytes = File.range content (reader.offset + reader.position) (reader.offset + reader.position + bytes.length)) ∧
    ∃ position, (reader.readChunk files limit).2 = { reader with position } := by
  simp only [TempReader.readChunk, file]
  split_ifs with done ended
  · exact ⟨Or.inl rfl, reader.position, rfl⟩
  · exfalso
    simp only [File.range, List.length_take, List.length_drop] at ended
    omega
  · refine ⟨Or.inr ⟨_, rfl, ?_⟩, _, rfl⟩
    rw [File.take_range, File.range_exact]

theorem Leased.readChunk (leased : system.Leased) (index limit : Nat) :
    (system.apply (.readChunk index limit)).Leased := by
  simp only [apply]
  cases found : system.readers[index]? with
  | none => exact leased
  | some reader =>
    have member := List.mem_of_getElem? found
    obtain ⟨chunk, position, moved⟩ := readChunk_file (leased.file member) (leased.inside reader member) limit
    have old (next : TempReader) (inside : next ∈ system.readers.set index (reader.readChunk system.state.files limit).2) :
        ∃ before ∈ system.readers, before.blockId = next.blockId ∧ before.path = next.path ∧
          before.offset = next.offset ∧ before.contentSize = next.contentSize := by
      rcases List.mem_or_eq_of_mem_set inside with same | rfl
      · exact ⟨next, same, rfl, rfl, rfl, rfl⟩
      · exact ⟨reader, member, by rw [moved], by rw [moved], by rw [moved], by rw [moved]⟩
    refine { leased.toFiled with held := ?_, inside := ?_, calm := ?_ }
    · intro next inside
      obtain ⟨before, present, block, path, -, -⟩ := old next inside
      rw [← block, ← path]
      exact leased.held before present
    · intro next inside
      obtain ⟨before, present, block, -, offset, size⟩ := old next inside
      rw [← block, ← offset, ← size]
      exact leased.inside before present
    · rcases chunk with none | ⟨bytes, read, -⟩
      · simp only [none, leased.calm]
      · simp only [read, leased.calm]

theorem Leased.apply (leased : system.Leased) (event : DecompressEvent) (inside : system.Inside event)
    (spares : system.Spares event) : (system.apply event).Leased := by
  cases event with
  | resolveData blockId offset contentSize failure clock order =>
    obtain ⟨filed, returned, kept⟩ := leased.resolve spares failure order
    simp only [Decompressing.apply]
    generalize system.resolve (blockId, .data) failure clock order = reply at filed returned kept
    obtain ⟨result, state⟩ := reply
    cases result with
    | error failure => exact { filed with held := kept, inside := leased.inside, calm := leased.calm }
    | ok path =>
      refine { filed with held := ?_, inside := ?_, calm := leased.calm }
      · intro reader member
        rcases List.mem_append.mp member with old | new
        · exact kept reader old
        · obtain rfl := List.mem_singleton.mp new
          exact returned path rfl
      · intro reader member
        rcases List.mem_append.mp member with old | new
        · exact leased.inside reader old
        · obtain rfl := List.mem_singleton.mp new
          exact inside
  | resolveDescriptor blockId failure clock order =>
    obtain ⟨filed, -, kept⟩ := leased.resolve spares failure order
    exact { filed with held := kept, inside := leased.inside, calm := leased.calm }
  | checkExists index =>
    simp only [Decompressing.apply]
    cases found : system.readers[index]? with
    | none => exact leased
    | some reader =>
      have file := leased.file (List.mem_of_getElem? found)
      simp only [file, reduceCtorEq, and_false, if_false]
      exact leased
  | readChunk index limit => exact leased.readChunk index limit
  | close index =>
    have fewer : system.readers.eraseIdx index ⊆ system.readers := List.eraseIdx_subset
    exact { leased.toFiled with
            held := fun reader member => leased.held reader (fewer member)
            inside := fun reader member => leased.inside reader (fewer member), calm := leased.calm }
  | invalidate blockId contents =>
    have filed := (leased.toFiled.invalidateKey (blockId, .data)).invalidateKey (blockId, .descriptor)
    refine { distinct := filed.distinct, fits := filed.fits, named := filed.named, stored := ?_
             held := ?_, inside := ?_, calm := leased.calm }
    · intro entry member
      have other : entry.1.1 ≠ blockId := invalidate_other member
      simp only [Decompressing.apply, if_neg other]
      exact filed.stored entry member
    · intro reader member
      have other := spares reader member
      refine has_invalidateKey (has_invalidateKey (leased.held reader member) ?_) ?_
      · exact fun same => other (Prod.mk.inj same).1
      · exact fun same => other (Prod.mk.inj same).1
    · intro reader member
      simp only [Decompressing.apply, if_neg (spares reader member)]
      exact leased.inside reader member

/-- No file that a reader has is deleted, and no reader meets a failure. -/
theorem readers_undisturbed (size ttl : Nat) (contents : DecompressedKey → File) (system : Decompressing)
    (run : Runs apply (fun current event => current.Inside event ∧ current.Spares event)
      (start (DecompressCache.new size ttl) contents) system) :
    system.failures = [] ∧ ∀ reader ∈ system.readers,
      system.state.files reader.path = some (system.contents (reader.blockId, .data)) ∧
        ∀ limit chunk, (reader.readChunk system.state.files limit).1 = some chunk → ∃ bytes, chunk = .ok bytes ∧
          bytes = File.range (system.contents (reader.blockId, .data)) (reader.offset + reader.position)
            (reader.offset + reader.position + bytes.length) := by
  have leased : system.Leased := by
    refine run.invariant Leased ?_ fun current event leased allowed => leased.apply event allowed.1 allowed.2
    refine { distinct := List.nodup_nil, fits := Nat.zero_le _, named := ?_, stored := ?_, held := ?_, inside := ?_
             calm := rfl }
    all_goals
      intro _ member
      cases member
  refine ⟨leased.calm, fun reader member => ⟨leased.file member, fun limit chunk read => ?_⟩⟩
  rcases (readChunk_file (leased.file member) (leased.inside reader member) limit).1 with none | ⟨bytes, is, same⟩
  · rw [none] at read
    cases read
  · rw [is] at read
    exact ⟨bytes, (Option.some.inj read).symm, same⟩

end Reads

instance plainTempFiles : TempFiles where
  tempDir := "/tmp/cache"
  entryHash _ := 7

def plainOrder : Order := { order := id, perm := fun _ => List.Perm.refl _ }

def numbered (key : DecompressedKey) : File := [UInt8.ofNat key.1]

def openAt (seconds blockId : Nat) : DecompressEvent :=
  .resolveData blockId 0 1 none
    { started := seconds * 1000000000, finished := seconds * 1000000000, unique := seconds } plainOrder

def opened : Decompressing := (start DecompressCache.default numbered).apply (openAt 0 1)

theorem readers_undisturbed_late :
    (opened.apply (openAt 30 2)).failures = [] ∧ ∀ reader ∈ (opened.apply (openAt 30 2)).readers,
      (opened.apply (openAt 30 2)).state.files reader.path =
          some ((opened.apply (openAt 30 2)).contents (reader.blockId, .data)) ∧
        ∀ limit chunk, (reader.readChunk (opened.apply (openAt 30 2)).state.files limit).1 = some chunk →
          ∃ bytes, chunk = .ok bytes ∧ bytes = File.range ((opened.apply (openAt 30 2)).contents (reader.blockId, .data))
            (reader.offset + reader.position) (reader.offset + reader.position + bytes.length) := by
  have first : (start DecompressCache.default numbered).Inside (openAt 0 1) ∧
      (start DecompressCache.default numbered).Spares (openAt 0 1) :=
    ⟨by simp [Inside, openAt, start, numbered], Or.inr (by decide), by simp [start]⟩
  have second : opened.Inside (openAt 30 2) ∧ opened.Spares (openAt 30 2) := by
    refine ⟨by simp [Inside, openAt]; decide, Or.inr (by decide), ?_⟩
    decide
  exact readers_undisturbed 64 30000000000 numbered _ ((Runs.start.step (openAt 0 1) first).step (openAt 30 2) second)

theorem reader_loses_file :
    Runs apply Inside (start DecompressCache.default numbered)
        ((opened.apply (openAt 31 2)).apply (.readChunk 0 1000)) ∧
      (opened.apply (openAt 31 2)).readers.map (fun reader => (opened.apply (openAt 31 2)).state.files reader.path) =
        [none, some [2]] ∧
      ((opened.apply (openAt 31 2)).apply (.readChunk 0 1000)).failures =
        [internalServerError
          "Failed to read record chunk: [InternalServerError] File \"/tmp/cache/7_1_0.blk\" does not exist"] := by
  refine ⟨?_, by decide, by decide⟩
  have first : (start DecompressCache.default numbered).Inside (openAt 0 1) := by simp [Inside, openAt, start, numbered]
  have second : opened.Inside (openAt 31 2) := by simp [Inside, openAt]; decide
  exact ((Runs.start.step (openAt 0 1) first).step (openAt 31 2) second).step (.readChunk 0 1000) trivial

end Decompressing

end ReductStore
