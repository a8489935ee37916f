import ReductStore.Cache
import ReductStore.Shared.Machine

set_option autoImplicit false

namespace ReductStore

open Caching

inductive AccessMode where
  | read
  | readWrite
  deriving DecidableEq

structure OpenFile where
  mode : AccessMode
  isSynced : Bool
  inUse : Bool
  deriving DecidableEq

inductive FileTurn (P : Type) where
  | lookUp (path : P) (mode : AccessMode) (now : Nat)
  | insertOpened (index : Nat) (created : Nat) (now : P → Nat) (arrangement : Arrangement (P × ExpiringValue Nat))
  | settle (index : Nat) (created : Nat) (now : P → Nat) (arrangement : Arrangement (P × ExpiringValue Nat))
  | acquire (file : Nat)
  | write (file : Nat)
  | release (file : Nat)
  | syncAll (file : Nat)
  | remove (path : P)
  | discard (path : P)

structure FileCache (P : Type) where
  cache : Cache P Nat
  files : List OpenFile := []
  opening : List (P × AccessMode) := []
  discarded : List (P × Nat) := []

namespace FileCache

variable {P : Type} [DecidableEq P]

def start (size ttl : Nat) : FileCache P := { cache := { store := [], size, ttl } }

omit [DecidableEq P] in
def setFile (state : FileCache P) (file : Nat) (change : OpenFile → OpenFile) : FileCache P :=
  { state with files := state.files.modify file change }

omit [DecidableEq P] in
def needsSync (state : FileCache P) (file : Nat) : Bool :=
  match state.files[file]? with
  | some opened => decide (opened.mode = .readWrite) && ! opened.isSynced
  | none => false

omit [DecidableEq P] in
def isUsed (state : FileCache P) (file : Nat) : Bool := (state.files[file]?).any (·.inUse)

def needsOpen (state : FileCache P) (path : P) (mode : AccessMode) : Bool :=
  match (state.cache.get path 0).1 with
  | none => true
  | some file => decide (mode = .readWrite ∧ (state.files[file]?).map (·.mode) ≠ some .readWrite)

def turn (state : FileCache P) : FileTurn P → FileCache P × List Nat
  | .lookUp path mode now =>
    let opening := if state.needsOpen path mode then state.opening ++ [(path, mode)] else state.opening
    ({ state with cache := (state.cache.get path now).2, opening }, [])
  | .insertOpened index created now arrangement =>
    match state.opening[index]? with
    | none => (state, [])
    | some (path, mode) =>
      let (discarded, cache) := state.cache.insert path state.files.length created now arrangement
      ({ cache
         files := state.files ++ [{ mode, isSynced := true, inUse := false }]
         opening := state.opening.eraseIdx index
         discarded := state.discarded ++ discarded }, [])
  | .settle index created now arrangement =>
    match state.discarded[index]? with
    | none => (state, [])
    | some (path, file) =>
      let waiting := state.discarded.eraseIdx index
      if state.isUsed file then
        -- What this insertion discards is dropped.
        ({ state with cache := (state.cache.insert path file created now arrangement).2, discarded := waiting }, [])
      else if state.needsSync file then
        ({ state.setFile file ({ · with isSynced := true }) with discarded := waiting }, [file])
      else ({ state with discarded := waiting }, [])
  | .acquire file => (state.setFile file ({ · with inUse := true }), [])
  | .write file => (state.setFile file ({ · with isSynced := false }), [])
  | .release file => (state.setFile file ({ · with inUse := false }), [])
  | .syncAll file => (state.setFile file ({ · with isSynced := true }), [file])
  | .remove path => ({ state with cache := (state.cache.remove path).2 }, [])
  | .discard path =>
    match state.cache.remove path with
    | (none, _) => (state, [])
    | (some file, cache) =>
      -- The lock of a file that stays in use is given up, and the file is dropped.
      if state.isUsed file then ({ state with cache }, [])
      else if state.needsSync file then ({ state.setFile file ({ · with isSynced := true }) with cache }, [file])
      else ({ state with cache }, [])

def apply (state : FileCache P) (call : FileTurn P) : FileCache P := (state.turn call).1

omit [DecidableEq P] in
def Holds (state : FileCache P) (file : Nat) : Prop :=
  ∃ path, (path, file) ∈ Cache.pairs state.cache.store ∨ (path, file) ∈ state.discarded

def Protects (state : FileCache P) (call : FileTurn P) : Prop :=
  ∀ file, state.needsSync file = true → state.Holds file →
    (state.apply call).Holds file ∨ file ∈ (state.turn call).2 ∨
      ∃ path, call = .remove path ∧ (path, file) ∈ Cache.pairs state.cache.store

structure Room (state : FileCache P) (path : P) (created : Nat) (now : P → Nat) : Prop where
  free : state.cache.store.length < state.cache.size
  absent : path ∉ state.cache.store.map Prod.fst
  young : ∀ entry ∈ state.cache.store, state.cache.isStale now entry = false
  soon : now path - created ≤ state.cache.ttl

/-- A file replaces only a file without unsynced writes; a discarded file that is still in use finds room; and no file is
discarded while it is in use. -/
def Careful (state : FileCache P) : FileTurn P → Prop
  | .insertOpened index _ _ _ => ∀ path mode, state.opening[index]? = some (path, mode) →
      ∀ file, (path, file) ∈ Cache.pairs state.cache.store → state.needsSync file = false
  | .settle index created now _ => ∀ path file, state.discarded[index]? = some (path, file) →
      state.isUsed file = false ∨ state.Room path created now
  | .discard path => ∀ file, (path, file) ∈ Cache.pairs state.cache.store → state.isUsed file = false
  | _ => True

section Turns

variable {state : FileCache P}

omit [DecidableEq P] in
def Distinct (state : FileCache P) : Prop := (state.cache.store.map Prod.fst).Nodup

theorem mem_others {path other : P} {file : Nat} (member : (other, file) ∈ Cache.pairs state.cache.store)
    (apart : other ≠ path) : (other, file) ∈ Cache.pairs (state.cache.store.filter (·.1 ≠ path)) := by
  obtain ⟨entry, present, same⟩ := List.mem_map.mp member
  obtain ⟨rfl, rfl⟩ := Prod.mk.inj same
  exact List.mem_map_of_mem (List.mem_filter.mpr ⟨present, by simpa using apart⟩)

theorem mem_placed {path other : P} {file : Nat} (opened created : Nat) (arrangement : Arrangement (P × ExpiringValue Nat))
    (member : (other, file) ∈ Cache.pairs state.cache.store) (apart : other ≠ path) :
    (other, file) ∈ Cache.pairs (state.cache.placed path opened created arrangement).store := by
  rw [(Cache.pairs_perm (Cache.placed_perm path opened created arrangement)).mem_iff]
  exact List.mem_cons_of_mem _ (mem_others member apart)

theorem Room.insert {path : P} {created : Nat} {now : P → Nat} (room : state.Room path created now) (file : Nat)
    (arrangement : Arrangement (P × ExpiringValue Nat)) :
    state.cache.insert path file created now arrangement = ([], state.cache.placed path file created arrangement) := by
  have order : (state.cache.placed path file created arrangement).store.Perm _ :=
    Cache.placed_perm path file created arrangement
  have young : ∀ entry ∈ (state.cache.placed path file created arrangement).store,
      (state.cache.placed path file created arrangement).isStale now entry = false := by
    intro entry member
    rcases List.mem_cons.mp (order.mem_iff.mp member) with rfl | other
    · have soon := room.soon
      exact decide_eq_false (Nat.not_lt.mpr soon)
    · exact room.young entry (List.mem_of_mem_filter other)
  have none : (state.cache.placed path file created arrangement).store.filter
      ((state.cache.placed path file created arrangement).isStale now) = [] :=
    List.filter_eq_nil_iff.mpr fun entry member => by simp [young entry member]
  have all : (state.cache.placed path file created arrangement).store.filter
      (! (state.cache.placed path file created arrangement).isStale now ·) =
      (state.cache.placed path file created arrangement).store :=
    List.filter_eq_self.mpr fun entry member => by simp [young entry member]
  have short : (state.cache.placed path file created arrangement).store.length ≤ state.cache.size := by
    have shorter := List.length_filter_le (fun entry : P × ExpiringValue Nat => decide (entry.1 ≠ path)) state.cache.store
    have free := room.free
    rw [order.length_eq, List.length_cons]
    omega
  rw [Cache.insert, Cache.discard_within short, none, all]
  rfl

theorem protects_insertOpened (distinct : state.Distinct) (index created : Nat) (now : P → Nat)
    (arrangement : Arrangement (P × ExpiringValue Nat))
    (careful : state.Careful (.insertOpened index created now arrangement)) :
    state.Protects (.insertOpened index created now arrangement) := by
  intro file dirty ⟨path, held⟩
  refine .inl ?_
  unfold apply turn
  cases found : state.opening[index]? with
  | none =>
    simp only [found]
    exact ⟨path, held⟩
  | some opened =>
    simp only [found]
    rcases held with cached | waiting
    · have apart : path ≠ opened.1 := by
        rintro rfl
        rw [careful opened.1 opened.2 found file cached] at dirty
        exact Bool.noConfusion dirty
      have discarded : Cache.Discarded _ now _ _ :=
        Cache.discardOldDescriptors_discarded (Cache.placed_distinct distinct opened.1 state.files.length created arrangement)
      have placed := discarded.whole.mem_iff.mp (mem_placed state.files.length created arrangement cached apart)
      rcases List.mem_append.mp placed with removed | kept
      · exact ⟨path, .inr (List.mem_append_right _ removed)⟩
      · exact ⟨path, .inl kept⟩
    · exact ⟨path, .inr (List.mem_append_left _ waiting)⟩

theorem protects_settle (index created : Nat) (now : P → Nat) (arrangement : Arrangement (P × ExpiringValue Nat))
    (careful : state.Careful (.settle index created now arrangement)) :
    state.Protects (.settle index created now arrangement) := by
  intro file dirty ⟨path, held⟩
  unfold apply turn
  cases found : state.discarded[index]? with
  | none =>
    simp only [found]
    exact .inl ⟨path, held⟩
  | some entry =>
    obtain ⟨inside, here⟩ := List.getElem?_eq_some_iff.mp found
    have split : state.discarded.Perm (entry :: state.discarded.eraseIdx index) := by
      rw [← here]
      exact (List.getElem_cons_eraseIdx_perm inside).symm
    simp only [found]
    split_ifs with used unsynced
    · have room := (careful entry.1 entry.2 found).resolve_left (by simp [used])
      rw [room.insert]
      refine .inl ?_
      rcases held with cached | waiting
      · have apart : path ≠ entry.1 := by
          rintro rfl
          refine room.absent ?_
          rw [← Cache.keys_pairs]
          exact List.mem_map.mpr ⟨_, cached, rfl⟩
        exact ⟨path, .inl (mem_placed entry.2 created arrangement cached apart)⟩
      · rcases List.mem_cons.mp (split.mem_iff.mp waiting) with rfl | later
        · refine ⟨path, .inl ?_⟩
          rw [(Cache.pairs_perm (Cache.placed_perm path file created arrangement)).mem_iff]
          exact List.mem_cons_self
        · exact ⟨path, .inr later⟩
    · rcases held with cached | waiting
      · exact .inl ⟨path, .inl cached⟩
      · rcases List.mem_cons.mp (split.mem_iff.mp waiting) with rfl | later
        · exact .inr (.inl (List.mem_singleton_self _))
        · exact .inl ⟨path, .inr later⟩
    · rcases held with cached | waiting
      · exact .inl ⟨path, .inl cached⟩
      · rcases List.mem_cons.mp (split.mem_iff.mp waiting) with rfl | later
        · exact absurd dirty unsynced
        · exact .inl ⟨path, .inr later⟩

omit [DecidableEq P] in
theorem file_unique (distinct : state.Distinct) {path : P} {file other : Nat}
    (first : (path, file) ∈ Cache.pairs state.cache.store) (second : (path, other) ∈ Cache.pairs state.cache.store) :
    file = other := by
  rw [Distinct, ← Cache.keys_pairs] at distinct
  exact (Prod.mk.inj (List.inj_on_of_nodup_map distinct first second rfl)).2

theorem protects_remove (path : P) : state.Protects (.remove path) := by
  intro file _ ⟨other, held⟩
  rcases held with cached | waiting
  · by_cases same : other = path
    · exact .inr (.inr ⟨path, rfl, same ▸ cached⟩)
    · exact .inl ⟨other, .inl (mem_others cached same)⟩
  · exact .inl ⟨other, .inr waiting⟩

theorem protects_discard (distinct : state.Distinct) (path : P) (careful : state.Careful (.discard path)) :
    state.Protects (.discard path) := by
  intro file dirty ⟨other, held⟩
  unfold apply turn
  cases removed : state.cache.remove path with
  | mk value cache =>
    cases value with
    | none =>
      simp only [removed]
      exact .inl ⟨other, held⟩
    | some gone =>
      have present : (path, gone) ∈ Cache.pairs state.cache.store := Cache.mem_of_find (congrArg Prod.fst removed)
      have rest : cache.store = state.cache.store.filter (·.1 ≠ path) := by
        have after : (state.cache.remove path).2 = cache := by rw [removed]
        rw [← after]
        rfl
      have stays (apart : other ≠ path) (cached : (other, file) ∈ Cache.pairs state.cache.store) :
          (other, file) ∈ Cache.pairs cache.store := rest ▸ mem_others cached apart
      simp only [removed, careful gone present, Bool.false_eq_true, if_false]
      rcases held with cached | waiting
      · by_cases same : other = path
        · subst same
          obtain rfl := file_unique distinct cached present
          rw [if_pos dirty]
          exact .inr (.inl (List.mem_singleton_self _))
        · split_ifs
          · exact .inl ⟨other, .inl (stays same cached)⟩
          · exact .inl ⟨other, .inl (stays same cached)⟩
      · split_ifs
        · exact .inl ⟨other, .inr waiting⟩
        · exact .inl ⟨other, .inr waiting⟩

theorem protects_careful (distinct : state.Distinct) (call : FileTurn P) (careful : state.Careful call) :
    state.Protects call := by
  cases call with
  | lookUp path mode now =>
    intro file _ ⟨other, held⟩
    refine .inl ⟨other, ?_⟩
    change _ ∈ Cache.pairs (state.cache.get path now).2.store ∨ _
    rwa [Cache.pairs_get]
  | insertOpened index created now arrangement => exact protects_insertOpened distinct index created now arrangement careful
  | settle index created now arrangement => exact protects_settle index created now arrangement careful
  | acquire | write | release | syncAll => exact fun _ _ held => .inl held
  | remove path => exact protects_remove path
  | discard path => exact protects_discard distinct path careful

theorem Distinct.insert (distinct : state.Distinct) (path : P) (file created : Nat) (now : P → Nat)
    (arrangement : Arrangement (P × ExpiringValue Nat)) :
    ((state.cache.insert path file created now arrangement).2.store.map Prod.fst).Nodup := by
  have placed := Cache.placed_distinct distinct path file created arrangement
  exact ((Cache.discardOldDescriptors_discarded placed).kept.map Prod.fst).nodup placed

theorem Distinct.apply (distinct : state.Distinct) (call : FileTurn P) : (state.apply call).Distinct := by
  have removed (path : P) : ((state.cache.remove path).2.store.map Prod.fst).Nodup :=
    (List.filter_sublist.map Prod.fst).nodup distinct
  unfold FileCache.apply turn
  cases call with
  | lookUp path mode now =>
    change ((state.cache.get path now).2.store.map Prod.fst).Nodup
    rwa [← Cache.keys_pairs, Cache.pairs_get, Cache.keys_pairs]
  | insertOpened index created now arrangement =>
    dsimp only
    split
    · exact distinct
    · exact distinct.insert ..
  | settle index created now arrangement =>
    dsimp only
    split
    · exact distinct
    · split_ifs
      · exact distinct.insert ..
      · exact distinct
      · exact distinct
  | acquire | write | release | syncAll => exact distinct
  | remove path => exact removed path
  | discard path =>
    have rest := removed path
    dsimp only
    split
    · exact distinct
    · next file cache found =>
      rw [found] at rest
      split_ifs <;> exact rest

end Turns

section Sample

def inOrder : Arrangement (Nat × ExpiringValue Nat) := ⟨id, fun _ => List.Perm.refl _⟩

def written : List (FileTurn Nat) :=
  [.lookUp 0 .readWrite 0, .insertOpened 0 0 (fun _ => 0) inOrder, .acquire 0, .write 0]

def displacing : List (FileTurn Nat) :=
  written ++ [.release 0, .lookUp 1 .readWrite 1, .insertOpened 0 1 (fun _ => 1) inOrder]

def crowded : List (FileTurn Nat) :=
  written ++ [.lookUp 1 .readWrite 1, .insertOpened 0 1 (fun _ => 1) inOrder, .acquire 1, .write 1, .release 1,
    .lookUp 2 .readWrite 2, .insertOpened 0 2 (fun _ => 2) inOrder]

end Sample

end FileCache

end ReductStore
