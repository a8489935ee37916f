import ReductStore.Replication.TransactionQueue

set_option autoImplicit false

namespace ReductStore.TransactionLog

open BigEndian

section Resize

variable {log : TransactionLog} {slots first capacity : Nat}

theorem Laid.resized (laid : Laid log slots first []) (path : String) (inside : first < capacity)
    (representable : slotPos capacity < 2 ^ 63) :
    Laid { log with filePath := path, capacityInBytes := slotPos capacity, file := log.file.setLen (slotPos capacity) }
      capacity first [] := by
  have header := laid.header_le
  have kept : 16 ≤ slotPos capacity := Nat.le_add_left _ _
  exact {
    inside
    room := Nat.zero_le _
    representable
    capacity := rfl
    size := File.length_setLen _ _
    readAt := laid.readAt
    writeAt := by
      have position := laid.writeAt
      rw [List.length_nil, Nat.add_zero, Nat.mod_eq_of_lt laid.inside] at position
      rw [List.length_nil, Nat.add_zero, Nat.mod_eq_of_lt inside]
      exact position
    writeHeader := (File.range_setLen log.file _ 0 8 (by omega) (by omega)).trans laid.writeHeader
    readHeader := (File.range_setLen log.file _ 8 16 kept header).trans laid.readHeader
    entries := rfl }

end Resize

def loadedCapacity (queue : List Transaction) (capacity newCapacity : Nat) : Nat :=
  if queue = [] then newCapacity else capacity

def LoadsAs (log : TransactionLog) (queue : List Transaction) (capacity newCapacity : Nat) : Prop :=
  ∃ loaded, load log.filePath log.file newCapacity = .ok loaded ∧
    loaded.capacityInBytes = loadedCapacity queue capacity newCapacity * entrySize + headerSize ∧
    (headerSize ≤ loaded.readPos ∧ loaded.readPos < loaded.capacityInBytes) ∧
    (headerSize ≤ loaded.writePos ∧ loaded.writePos < loaded.capacityInBytes) ∧
    ∀ calls, (∀ call ∈ calls, Allocates call ∧ call ≠ .reload) →
      replies (perform newCapacity) loaded calls =
        replies (answer (loadedCapacity queue capacity newCapacity)) queue calls ∧
      ∃ again, load loaded.filePath (afterCalls (perform newCapacity) loaded calls).file newCapacity = .ok again

theorem perform_capacity (capacity other : Nat) (log : TransactionLog) (call : LogCall) (stays : call ≠ .reload) :
    perform capacity log call = perform other log call := by
  cases call with
  | reload => exact absurd rfl stays
  | _ => rfl

section Resize

variable {log : TransactionLog} {slots newCapacity : Nat} {queue : List Transaction}

theorem Represents.loads (represents : Represents log slots queue) (path : String)
    (representable : slotPos newCapacity < 2 ^ 63) : ∃ loaded, TransactionLog.load path log.file newCapacity = .ok loaded := by
  obtain ⟨⟨first, laid⟩, room⟩ := represents
  have size := initCapacityInBytes_eq newCapacity representable
  rw [laid.load path newCapacity (by rw [size]; exact Nat.le_add_left _ _), size, resize, if_pos representable]
  split
  · exact ⟨_, rfl⟩
  · exact ⟨_, rfl⟩

theorem Represents.positions (represents : Represents log slots queue) :
    (headerSize ≤ log.readPos ∧ log.readPos < log.capacityInBytes) ∧
      (headerSize ≤ log.writePos ∧ log.writePos < log.capacityInBytes) := by
  obtain ⟨⟨first, laid⟩, room⟩ := represents
  have below := laid.inside
  have last := laid.slot_lt queue.length
  rw [laid.readAt, laid.writeAt, laid.capacity]
  simp only [slotPos, headerSize, entrySize]
  omega

theorem Represents.goesOn (represents : Represents log slots queue) (representable : slotPos newCapacity < 2 ^ 63)
    (calls : List LogCall) (allowed : ∀ call ∈ calls, Allocates call ∧ call ≠ .reload) :
    replies (perform newCapacity) log calls = replies (answer slots) queue calls ∧
      ∃ again, TransactionLog.load log.filePath (afterCalls (perform newCapacity) log calls).file newCapacity =
        .ok again := by
  have step (log : TransactionLog) (queue : List Transaction) (call : LogCall) (represents : Represents log slots queue)
      (allowed : Allocates call ∧ call ≠ .reload) :
      (perform newCapacity log call).1 = (answer slots queue call).1 ∧
        Represents (perform newCapacity log call).2 slots (answer slots queue call).2 := by
    rw [perform_capacity newCapacity slots log call allowed.2]
    exact perform_answer slots log queue call represents allowed.1
  have reached := afterCalls_related (perform newCapacity) (answer slots) (fun log queue => Represents log slots queue)
    _ (fun log queue call represents allowed => (step log queue call represents allowed).2) calls log queue
    represents allowed
  exact ⟨replies_eq _ _ _ _ step calls log queue represents allowed, reached.loads log.filePath representable⟩

theorem LoadsAs.of_represents {loaded : TransactionLog} {capacity : Nat}
    (loads : load log.filePath log.file newCapacity = .ok loaded)
    (represents : Represents loaded (loadedCapacity queue capacity newCapacity) queue)
    (representable : slotPos newCapacity < 2 ^ 63) : LoadsAs log queue capacity newCapacity := by
  obtain ⟨readInside, writeInside⟩ := represents.positions
  refine ⟨loaded, loads, ?_, readInside, writeInside, represents.goesOn representable⟩
  obtain ⟨⟨_, laid⟩, _⟩ := represents
  exact laid.capacity

theorem loadsAs_iff (represents : Represents log slots queue) (positive : 1 ≤ newCapacity)
    (representable : slotPos newCapacity < 2 ^ 63) :
    LoadsAs log queue slots newCapacity ↔ log.isEmpty = false ∨ log.readPos < slotPos newCapacity := by
  have size := initCapacityInBytes_eq newCapacity representable
  have empty := represents.isEmpty_iff
  obtain ⟨⟨first, laid⟩, room⟩ := represents
  have loads := laid.load log.filePath newCapacity (by rw [size]; exact Nat.le_add_left _ _)
  rw [size, resize, if_pos representable] at loads
  by_cases same : queue = []
  · have met := empty.mpr same
    have notFalse : log.isEmpty = true := by simp [isEmpty, met]
    subst same
    simp only [notFalse, Bool.true_eq_false, false_or]
    constructor
    · rintro ⟨loaded, ok, capacity, ⟨_, inside⟩, _⟩
      -- the load keeps the position
      have position : loaded.readPos = log.readPos := by
        rw [loads] at ok
        split at ok
        · cases ok
          rfl
        · cases ok
          rfl
      rw [← position]
      exact inside.trans_eq capacity
    · intro below
      have inside : first < newCapacity := by
        rw [laid.readAt] at below
        simp only [slotPos, entrySize, headerSize] at below
        omega
      by_cases resizes : slotPos newCapacity = slotPos slots
      · have unchanged : newCapacity = slots := slotPos_inj.mp resizes
        rw [if_neg (by simp [resizes])] at loads
        subst unchanged
        exact .of_represents loads ⟨⟨first, laid⟩, positive⟩ representable
      · rw [if_pos ⟨resizes, met⟩] at loads
        exact .of_represents loads ⟨⟨first, laid.resized log.filePath inside representable⟩, positive⟩ representable
  · have apart : ¬ log.readPos = log.writePos := fun met => same (empty.mp met)
    rw [if_neg (by simp [apart])] at loads
    have kept : loadedCapacity queue slots newCapacity = slots := if_neg same
    refine iff_of_true (.of_represents loads ?_ representable) (Or.inl (by simp [isEmpty, apart]))
    rw [kept]
    exact ⟨⟨first, laid⟩, room⟩

end Resize

/-- A log in reach of its capacity is loaded with another one as the same queue if it is not empty, or its
    positions lie inside the new capacity. -/
theorem load_with_capacity (path : String) (capacity newCapacity : Nat) (positive : 1 ≤ capacity)
    (newPositive : 1 ≤ newCapacity) (representable : capacity * entrySize + headerSize < 2 ^ 63)
    (newRepresentable : newCapacity * entrySize + headerSize < 2 ^ 63) (start : TransactionLog)
    (created : tryLoadOrCreate path none capacity = .ok start) (calls : List LogCall) :
    LoadsAs (afterCalls (perform capacity) start calls) (afterCalls (answer capacity) [] calls) capacity newCapacity ↔
      (afterCalls (perform capacity) start calls).isEmpty = false ∨
        (afterCalls (perform capacity) start calls).readPos < newCapacity * entrySize + headerSize := by
  exact loadsAs_iff (represents_afterCalls (created_represents positive representable created) calls) newPositive
    newRepresentable

def passFive : List LogCall :=
  (List.replicate 5 (LogCall.pushBack (.writeRecord 1))) ++ [.popFront 5]

theorem load_with_capacity_at_six : ∃ start, tryLoadOrCreate "sensor.log" none 10 = .ok start ∧
    LoadsAs (afterCalls (perform 10) start passFive) (afterCalls (answer 10) [] passFive) 10 6 :=
  ⟨_, rfl, (load_with_capacity "sensor.log" 10 6 (by decide) (by decide) (by decide) (by decide) _ rfl passFive).mpr
    (by decide +kernel)⟩

theorem load_with_smaller_capacity : ∃ start, tryLoadOrCreate "sensor.log" none 10 = .ok start ∧
    ¬ LoadsAs (afterCalls (perform 10) start passFive) (afterCalls (answer 10) [] passFive) 10 3 ∧
    (load start.filePath (afterCalls (perform 10) start passFive).file 3).map
        (fun loaded => load loaded.filePath loaded.file 3) =
      .ok (.error (internalServerError "Invalid write position 61 in transaction log sensor.log")) := by
  obtain ⟨log, same, _, initial⟩ := create_represents "sensor.log" 10 (by decide) (by decide)
  refine ⟨log, same, ?_⟩
  have reached := represents_afterCalls initial passFive
  obtain rfl := Except.ok.inj same
  exact ⟨fun loads => absurd ((loadsAs_iff reached (by decide) (by decide)).mp loads) (by decide +kernel),
    by decide +kernel⟩

def pushWrites (log : TransactionLog) (transaction : Transaction) : List File :=
  let written := log.writeSlot transaction
  let advanced := written.advance
  written.file :: advanced.file ::
    if advanced.writePos = advanced.readPos then
      match advanced.unsafeHead 1 with
      | .error _ => []
      | .ok _ => [advanced.unsafePop.file]
    else []

def popWrites (log : TransactionLog) : Nat → List File
  | 0 => []
  | count + 1 => if log.readPos = log.writePos then [] else log.unsafePop.file :: log.unsafePop.popWrites count

theorem popWrites_get (log : TransactionLog) (count index : Nat) (file : File)
    (written : (log.popWrites count)[index]? = some file) :
    index < count ∧ file = (log.popFront (index + 1)).2.file := by
  induction count generalizing log index with
  | zero => simp [popWrites] at written
  | succ count ih =>
    rw [popWrites] at written
    split at written
    · simp at written
    · rename_i some
      cases index with
      | zero =>
        simp only [List.getElem?_cons_zero, Option.some.injEq] at written
        rw [popFront, if_neg some]
        exact ⟨Nat.succ_pos _, written.symm⟩
      | succ index =>
        obtain ⟨within, same⟩ := ih _ index written
        rw [popFront, if_neg some]
        exact ⟨Nat.succ_lt_succ within, same⟩

def writes (log : TransactionLog) : LogCall → List File
  | .pushBack transaction => log.pushWrites transaction
  | .popFront count => log.popWrites count
  | _ => []

def Survives (capacity : Nat) (queue : List Transaction) (loaded : TransactionLog) : LogCall → Prop
  | .pushBack transaction =>
    ∃ kept, Represents loaded capacity kept ∧
      (kept = queue ∨ kept = (enqueue (capacity - 1) queue transaction).2 ∨
        queue.length = capacity - 1 ∧ queue.tail.Sublist kept)
  | .popFront count => ∃ removed ≤ count, Represents loaded capacity (queue.drop removed)
  | _ => True

theorem Represents.reloaded {log : TransactionLog} {slots : Nat} {queue : List Transaction}
    (represents : Represents log slots queue) (path : String) :
    ∃ loaded, TransactionLog.load path log.file slots = .ok loaded ∧ Represents loaded slots queue := by
  obtain ⟨⟨first, laid⟩, room⟩ := represents
  have size := initCapacityInBytes_eq slots laid.representable
  refine ⟨{ log with filePath := path }, ?_, ⟨first, { laid with }⟩, room⟩
  rw [laid.load path slots (by rw [size]; exact Nat.le_add_left _ _), size, if_neg (by simp)]

theorem Represents.survives {log : TransactionLog} {capacity : Nat} {queue : List Transaction}
    (represents : Represents log capacity queue) (path : String) (call : LogCall) (index : Nat) (file : File)
    (written : (log.writes call)[index]? = some file) (between : index + 1 < (log.writes call).length)
    (complete : ∀ transaction, call = .pushBack transaction → index ≠ 1) :
    ∃ loaded, TransactionLog.load path file capacity = .ok loaded ∧ Survives capacity queue loaded call := by
  cases call with
  | pushBack transaction =>
    have first : index = 0 := by
      have later := complete transaction rfl
      simp only [writes, pushWrites] at between
      split at between
      · split at between <;> simp at between <;> omega
      · simp at between
        omega
    subst first
    obtain rfl : (log.writeSlot transaction).file = file := by simpa [writes, pushWrites] using written
    -- the entry is in a free slot, which no position tells of yet
    obtain ⟨⟨first, laid⟩, room⟩ := represents
    have filled : Represents (log.writeSlot transaction) capacity queue := ⟨⟨first, laid.writeSlot room transaction⟩, room⟩
    obtain ⟨loaded, loads, kept⟩ := filled.reloaded path
    exact ⟨loaded, loads, queue, kept, Or.inl rfl⟩
  | popFront count =>
    obtain ⟨within, rfl⟩ := popWrites_get log count index file written
    obtain ⟨loaded, loads, kept⟩ := (represents.popFront (index + 1)).2.reloaded path
    exact ⟨loaded, loads, index + 1, within, kept⟩
  | _ => simp [writes] at written

/-- A call that stops between two of its writes loses nothing but what it removes, unless it is a push that
    has moved the write position onto the read position. -/
theorem survives_stopped_call (path : String) (capacity : Nat) (positive : 1 ≤ capacity)
    (representable : capacity * entrySize + headerSize < 2 ^ 63) (start : TransactionLog)
    (created : tryLoadOrCreate path none capacity = .ok start) (calls : List LogCall) (call : LogCall)
    (index : Nat) (file : File)
    (written : ((afterCalls (perform capacity) start calls).writes call)[index]? = some file)
    (between : index + 1 < ((afterCalls (perform capacity) start calls).writes call).length)
    (complete : ∀ transaction, call = .pushBack transaction → index ≠ 1) :
    ∃ loaded, load path file capacity = .ok loaded ∧
      Survives capacity (afterCalls (answer capacity) [] calls) loaded call := by
  exact (represents_afterCalls (created_represents positive representable created) calls).survives path call index file written between complete

def pushThree : List LogCall := [.pushBack (.writeRecord 1), .pushBack (.writeRecord 2), .pushBack (.writeRecord 3)]

theorem survives_stopped_pop : ∃ start, tryLoadOrCreate "sensor.log" none 4 = .ok start ∧
    ∃ file, ((afterCalls (perform 4) start pushThree).writes (.popFront 2))[0]? = some file ∧
      ∃ loaded, load "sensor.log" file 4 = .ok loaded ∧
        Survives 4 (afterCalls (answer 4) [] pushThree) loaded (.popFront 2) :=
  ⟨_, rfl, _, rfl, survives_stopped_call "sensor.log" 4 (by decide) (by decide) _ rfl pushThree (.popFront 2) 0 _ rfl
    (by decide +kernel) (by simp)⟩

def listed (log : TransactionLog) (capacity : Nat) (file : Option File) :
    Option (Except ReductError (Except LogFailure (List Transaction))) :=
  file.map fun file => (load log.filePath file capacity).map fun loaded => loaded.front loaded.len

theorem stopped_calls_diverge : ∃ start, tryLoadOrCreate "sensor.log" none 4 = .ok start ∧
    let log := afterCalls (perform 4) start pushThree
    (log.listed 4 (some log.file) = some (.ok (.ok [.writeRecord 1, .writeRecord 2, .writeRecord 3])) ∧
      log.listed 4 (log.writes (.popFront 2))[0]? = some (.ok (.ok [.writeRecord 2, .writeRecord 3])) ∧
      log.listed 4 (some (log.popFront 2).2.file) = some (.ok (.ok [.writeRecord 3]))) ∧
    log.listed 4 (log.writes (.pushBack (.writeRecord 4)))[1]? = some (.ok (.ok [])) ∧
      log.listed 4 (some (log.pushBack (.writeRecord 4)).2.file) =
        some (.ok (.ok [.writeRecord 2, .writeRecord 3, .writeRecord 4])) :=
  ⟨_, rfl, by decide +kernel⟩

end ReductStore.TransactionLog
