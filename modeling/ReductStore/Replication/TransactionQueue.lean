import ReductStore.Replication.TransactionLog
import ReductStore.Shared.Machine
import ReductStore.Shared.Ring

set_option autoImplicit false

namespace ReductStore

open BigEndian

theorem Transaction.ofBytes_timestamp (timestamp : UInt64) :
    UInt64.ofNat (ofBytes (toBytes timestamp.toNat)) = timestamp := by
  rw [ofBytes_toBytes _ timestamp.toNat_lt]
  simp

namespace TransactionLog

def slotPos (slot : Nat) : Nat := slot * entrySize + headerSize

def entry (log : TransactionLog) (slot : Nat) : Except LogFailure Transaction := log.readEntry (slotPos slot)

theorem readEntry_congr (log other : TransactionLog) (pos : Nat)
    (same : other.file.range pos (pos + entrySize) = log.file.range pos (pos + entrySize)) :
    other.readEntry pos = log.readEntry pos := by
  rw [readEntry, readEntry, same]

theorem readEntry_encode (log : TransactionLog) (pos : Nat) (transaction : Transaction)
    (written : log.file.range pos (pos + entrySize) = transaction.encode) :
    log.readEntry pos = .ok transaction := by
  rw [readEntry, written]
  cases transaction <;>
    simp [Transaction.encode, Transaction.typeCode, Transaction.timestamp, Transaction.ofBytes_timestamp]

theorem nextPos_slotPos (log : TransactionLog) (slots slot : Nat)
    (capacity : log.capacityInBytes = slotPos slots) (inside : slot < slots) :
    log.nextPos (slotPos slot) = slotPos ((slot + 1) % slots) := by
  rw [← Ring.next_slot slots slot inside]
  simp only [nextPos, capacity, slotPos, headerSize, entrySize]
  split <;> split <;> omega

theorem slotPos_inj {slot other : Nat} : slotPos slot = slotPos other ↔ slot = other := by
  simp only [slotPos, headerSize, entrySize]
  omega

theorem slotPos_le {slot other : Nat} : slotPos slot ≤ slotPos other ↔ slot ≤ other := by
  simp only [slotPos, headerSize, entrySize]
  omega

theorem initCapacityInBytes_eq (capacity : Nat) (representable : slotPos capacity < 2 ^ 63) :
    initCapacityInBytes capacity = slotPos capacity :=
  Nat.mod_eq_of_lt (representable.trans (by decide))

structure Laid (log : TransactionLog) (slots first : Nat) (queue : List Transaction) : Prop where
  inside : first < slots
  room : queue.length ≤ slots
  representable : slotPos slots < 2 ^ 63
  capacity : log.capacityInBytes = slotPos slots
  size : log.file.length = slotPos slots
  readAt : log.readPos = slotPos first
  writeAt : log.writePos = slotPos ((first + queue.length) % slots)
  writeHeader : log.file.range 0 8 = toBytes log.writePos
  readHeader : log.file.range 8 16 = toBytes log.readPos
  entries : Ring.contents log.entry slots first queue.length = queue.map .ok

namespace Laid

variable {log : TransactionLog} {slots first : Nat} {queue : List Transaction}

theorem slot_lt (laid : Laid log slots first queue) (offset : Nat) : (first + offset) % slots < slots :=
  Nat.mod_lt _ (Nat.zero_lt_of_lt laid.inside)

theorem slot_end (laid : Laid log slots first queue) {slot : Nat} (below : slot < slots) :
    headerSize ≤ slotPos slot ∧ slotPos slot + entrySize ≤ log.file.length := by
  rw [laid.size]
  simp only [slotPos, headerSize, entrySize]
  omega

theorem nextPos (laid : Laid log slots first queue) (offset : Nat) :
    log.nextPos (slotPos ((first + offset) % slots)) = slotPos ((first + (offset + 1)) % slots) := by
  rw [nextPos_slotPos log slots _ laid.capacity (laid.slot_lt offset), Nat.mod_add_mod, Nat.add_assoc]

theorem entry_get (laid : Laid log slots first queue) (offset : Nat) (taken : offset < queue.length) :
    log.entry ((first + offset) % slots) = .ok (queue.get ⟨offset, taken⟩) := by
  have read := congrArg (·[offset]?) laid.entries
  simpa [Ring.contents, taken] using read

theorem length_eq_zero_iff (laid : Laid log slots first queue) (room : queue.length < slots) :
    log.readPos = log.writePos ↔ queue = [] := by
  rw [laid.readAt, laid.writeAt, slotPos_inj, eq_comm, Ring.end_eq_first slots first _ laid.inside room,
    List.length_eq_zero_iff]

theorem length_file_writeAt (laid : Laid log slots first queue) (pos : Nat) (bytes : List UInt8)
    (inside : pos + bytes.length ≤ slotPos slots) : (log.file.writeAt pos bytes).length = slotPos slots := by
  rw [File.length_writeAt_inside _ _ _ (inside.trans laid.size.ge), laid.size]

theorem header_le (laid : Laid log slots first queue) : 16 ≤ log.file.length := by
  rw [laid.size]
  exact Nat.le_add_left headerSize _

theorem entry_header (laid : Laid log slots first queue) (pos value : Nat) (header : pos + 8 ≤ headerSize)
    (writePos readPos slot : Nat) (below : slot < slots) :
    entry { log with writePos, readPos, file := log.file.writeAt pos (toBytes value) } slot = log.entry slot := by
  obtain ⟨behind, within⟩ := laid.slot_end below
  have outside : pos + (toBytes value).length ≤ slotPos slot := header.trans behind
  exact readEntry_congr _ _ _ (File.range_writeAt log.file pos _ _ (toBytes value) within (Or.inr outside))

theorem contents_header (laid : Laid log slots first queue) (pos value : Nat) (header : pos + 8 ≤ headerSize)
    (writePos readPos start count : Nat) :
    Ring.contents (entry { log with writePos, readPos, file := log.file.writeAt pos (toBytes value) })
      slots start count = Ring.contents log.entry slots start count := by
  refine Ring.contents_congr _ _ slots start count fun offset _ => ?_
  exact laid.entry_header pos value header writePos readPos _ (Nat.mod_lt _ (Nat.zero_lt_of_lt laid.inside))

theorem entry_writeSlot (laid : Laid log slots first queue) (transaction : Transaction) :
    (log.writeSlot transaction).entry ((first + queue.length) % slots) = .ok transaction := by
  refine readEntry_encode _ _ transaction ?_
  rw [← laid.writeAt]
  exact File.range_writeAt_self log.file log.writePos transaction.encode

theorem entry_writeSlot_other (laid : Laid log slots first queue) (transaction : Transaction) (slot : Nat)
    (below : slot < slots) (other : slot ≠ (first + queue.length) % slots) :
    (log.writeSlot transaction).entry slot = log.entry slot := by
  obtain ⟨behind, within⟩ := laid.slot_end below
  have outside : slotPos slot + entrySize ≤ log.writePos ∨
      log.writePos + transaction.encode.length ≤ slotPos slot := by
    rw [laid.writeAt, Transaction.length_encode]
    simp only [slotPos, entrySize, headerSize]
    omega
  exact readEntry_congr _ _ _ (File.range_writeAt log.file log.writePos _ _ transaction.encode within outside)

theorem writeSlot (laid : Laid log slots first queue) (room : queue.length < slots) (transaction : Transaction) :
    Laid (log.writeSlot transaction) slots first queue := by
  obtain ⟨behind, within⟩ := laid.slot_end (laid.slot_lt queue.length)
  have start : 16 ≤ log.writePos := by
    rw [laid.writeAt]
    exact behind
  have header := laid.header_le
  exact {
    laid with
    size := by
      refine laid.length_file_writeAt log.writePos transaction.encode ?_
      rw [laid.writeAt, ← laid.size]
      exact within
    writeHeader := Eq.trans
      (File.range_writeAt log.file log.writePos _ _ transaction.encode (by omega) (Or.inl (by omega)))
      laid.writeHeader
    readHeader := Eq.trans
      (File.range_writeAt log.file log.writePos _ _ transaction.encode header (Or.inl start))
      laid.readHeader
    entries := by
      rw [← laid.entries]
      refine Ring.contents_congr _ _ slots first _ fun offset taken => ?_
      exact laid.entry_writeSlot_other transaction _ (laid.slot_lt offset) (Ring.slot_ne slots first taken (by omega)) }

theorem advance (laid : Laid log slots first queue) (room : queue.length < slots) (transaction : Transaction)
    (written : log.entry ((first + queue.length) % slots) = .ok transaction) :
    Laid log.advance slots first (queue ++ [transaction]) := by
  have next : log.nextPos log.writePos = slotPos ((first + (queue.length + 1)) % slots) := by
    rw [laid.writeAt, laid.nextPos]
  have header := laid.header_le
  exact {
    laid with
    room := by
      rw [List.length_append]
      exact room
    size := laid.length_file_writeAt 0 (toBytes (log.nextPos log.writePos)) (by rw [← laid.size, length_toBytes]; omega)
    writeAt := by
      rw [List.length_append]
      exact next
    writeHeader := File.range_writeAt_self log.file 0 (toBytes (log.nextPos log.writePos))
    readHeader := Eq.trans
      (File.range_writeAt log.file 0 _ _ (toBytes (log.nextPos log.writePos)) header (Or.inr le_rfl))
      laid.readHeader
    entries := by
      rw [List.length_append, TransactionLog.advance, laid.contents_header 0 _ (by decide),
        List.length_singleton, Ring.contents_push log.entry log.entry slots first _ room (fun _ _ _ => rfl),
        laid.entries, written, List.map_append, List.map_singleton] }

theorem unsafePop {oldest : Transaction} (laid : Laid log slots first (oldest :: queue)) :
    Laid log.unsafePop slots ((first + 1) % slots) queue := by
  have next : log.nextPos log.readPos = slotPos ((first + 1) % slots) := by
    rw [laid.readAt, nextPos_slotPos log slots first laid.capacity laid.inside]
  have header := laid.header_le
  exact {
    laid with
    inside := laid.slot_lt 1
    room := (Nat.le_succ _).trans laid.room
    size := laid.length_file_writeAt 8 (toBytes (log.nextPos log.readPos)) (by rw [← laid.size, length_toBytes]; omega)
    readAt := next
    writeAt := by
      rw [Nat.mod_add_mod, Nat.add_right_comm]
      exact laid.writeAt
    writeHeader := Eq.trans
      (File.range_writeAt log.file 8 _ _ (toBytes (log.nextPos log.readPos)) (by omega) (Or.inl le_rfl))
      laid.writeHeader
    readHeader := File.range_writeAt_self log.file 8 (toBytes (log.nextPos log.readPos))
    entries := by
      have entries := laid.entries
      rw [List.length_cons, Ring.contents_pop, List.map_cons, List.cons.injEq] at entries
      rw [TransactionLog.unsafePop, laid.contents_header 8 _ (by decide)]
      exact entries.2 }

theorem readEntries (laid : Laid log slots first queue) (count offset : Nat) (taken : offset < queue.length) :
    log.readEntries count (slotPos ((first + offset) % slots)) = .ok ((queue.drop offset).take count) := by
  induction count generalizing offset with
  | zero => rfl
  | succ count ih =>
    have head : log.readEntry (slotPos ((first + offset) % slots)) = .ok (queue.get ⟨offset, taken⟩) :=
      laid.entry_get offset taken
    rw [TransactionLog.readEntries, head, laid.nextPos, laid.writeAt, List.drop_eq_getElem_cons taken,
      List.take_succ_cons]
    simp only [bind, Except.bind, pure, Except.pure, slotPos_inj, List.get_eq_getElem]
    by_cases last : offset + 1 = queue.length
    · rw [if_pos (by rw [last]), last, List.drop_length, List.take_nil]
    · have room := laid.room
      have apart := Ring.slot_ne slots first (show offset + 1 < queue.length by omega) (by omega)
      rw [if_neg apart, ih (offset + 1) (by omega)]

theorem len (laid : Laid log slots first queue) (room : queue.length < slots) : log.len = queue.length := by
  have inside := laid.inside
  have representable := laid.representable
  simp only [TransactionLog.len, wrappingSub, wrappingAdd, laid.readAt, laid.writeAt, laid.capacity]
  by_cases wraps : first + queue.length < slots
  · rw [Nat.mod_eq_of_lt wraps, if_pos (slotPos_le.mpr (Nat.le_add_right _ _))]
    simp only [slotPos, headerSize, entrySize]
    omega
  · rw [Nat.mod_eq_sub_mod (by omega), Nat.mod_eq_of_lt (by omega), if_neg (by rw [slotPos_le]; omega)]
    simp only [slotPos, headerSize, entrySize] at representable ⊢
    omega

theorem checkPos_slotPos (path name : String) (slot : Nat) (below : slot < slots) :
    checkPos path (slotPos slots) (slotPos slot) name = .ok () := by
  have valid : ¬ (slotPos slot < headerSize ∨ slotPos slot ≥ slotPos slots ∨
      (slotPos slot - headerSize) % entrySize ≠ 0) := by
    simp only [slotPos, headerSize, entrySize]
    omega
  rw [checkPos, if_neg valid]

theorem load (laid : Laid log slots first queue) (path : String) (capacity : Nat)
    (header : headerSize ≤ initCapacityInBytes capacity) :
    load path log.file capacity =
      if initCapacityInBytes capacity ≠ slotPos slots ∧ log.readPos = log.writePos then do
        let file ← resize log.file (initCapacityInBytes capacity)
        pure { log with filePath := path, capacityInBytes := initCapacityInBytes capacity, file }
      else .ok { log with filePath := path } := by
  have writeBelow := laid.slot_lt queue.length
  have bounded (slot : Nat) (below : slot < slots) : slotPos slot < 2 ^ 64 := by
    have representable := laid.representable
    simp only [slotPos, entrySize, headerSize] at representable ⊢
    omega
  have writePos : ofBytes (log.file.range 0 8) = log.writePos := by
    rw [laid.writeHeader, ofBytes_toBytes]
    rw [laid.writeAt]
    exact bounded _ writeBelow
  have readPos : ofBytes (log.file.range 8 16) = log.readPos := by
    rw [laid.readHeader, ofBytes_toBytes]
    rw [laid.readAt]
    exact bounded _ laid.inside
  have checked : integrityCheck path (initCapacityInBytes capacity) log.file.length log.writePos log.readPos = .ok () := by
    have aligned : (slotPos slots - headerSize) % entrySize = 0 := by simp [slotPos]
    rw [integrityCheck, laid.size, laid.writeAt, laid.readAt, checkPos_slotPos path _ _ writeBelow,
      checkPos_slotPos path _ _ laid.inside, if_neg (by omega)]
    rfl
  rw [TransactionLog.load, if_neg (by have := laid.header_le; omega)]
  simp only [writePos, readPos, checked, bind, Except.bind]
  rw [laid.size, ← laid.capacity]
  rfl

end Laid

def Represents (log : TransactionLog) (slots : Nat) (queue : List Transaction) : Prop :=
  (∃ first, Laid log slots first queue) ∧ queue.length < slots

def enqueue {α : Type} (bound : Nat) (queue : List α) (value : α) : Option α × List α :=
  if queue.length + 1 > bound then ((queue ++ [value]).head?, (queue ++ [value]).tail)
  else (none, queue ++ [value])

namespace Represents

variable {log : TransactionLog} {slots : Nat} {queue : List Transaction}

theorem unsafePop {oldest : Transaction} (represents : Represents log slots (oldest :: queue)) :
    Represents log.unsafePop slots queue := by
  obtain ⟨⟨first, laid⟩, room⟩ := represents
  exact ⟨⟨_, laid.unsafePop⟩, (Nat.lt_succ_self _).trans room⟩

theorem isEmpty_iff (represents : Represents log slots queue) : log.readPos = log.writePos ↔ queue = [] := by
  obtain ⟨⟨first, laid⟩, room⟩ := represents
  exact laid.length_eq_zero_iff room

theorem len (represents : Represents log slots queue) : log.len = queue.length := by
  obtain ⟨⟨first, laid⟩, room⟩ := represents
  exact laid.len room

theorem front (represents : Represents log slots queue) (count : Nat) (bounded : count ≤ maxTransactions) :
    log.front count = .ok (queue.take count) := by
  have empty := represents.isEmpty_iff
  obtain ⟨⟨first, laid⟩, room⟩ := represents
  cases queue with
  | nil => simp [TransactionLog.front, isEmpty, empty]
  | cons oldest rest =>
    have read := laid.readEntries count 0 (Nat.succ_pos _)
    rw [Nat.add_zero, Nat.mod_eq_of_lt laid.inside, ← laid.readAt] at read
    simp [TransactionLog.front, isEmpty, empty, unsafeHead, bounded, read]

theorem take_of_front (represents : Represents log slots queue) (count : Nat) (transactions : List Transaction)
    (returned : log.front count = .ok transactions) : transactions = queue.take count := by
  by_cases bounded : count ≤ maxTransactions
  · rw [represents.front count bounded] at returned
    exact (Except.ok.inj returned).symm
  · have empty := represents.isEmpty_iff
    by_cases none : queue = []
    · simp only [TransactionLog.front, isEmpty, empty, none, decide_true, if_true] at returned
      rw [none, List.take_nil, Except.ok.inj returned]
    · simp [TransactionLog.front, isEmpty, empty, none, unsafeHead, Nat.lt_of_not_le bounded] at returned

theorem popFront (represents : Represents log slots queue) (count : Nat) :
    (log.popFront count).1 = min count queue.length ∧
      Represents (log.popFront count).2 slots (queue.drop count) := by
  induction count generalizing log queue with
  | zero => exact ⟨(Nat.zero_min _).symm, represents⟩
  | succ count ih =>
    have empty := represents.isEmpty_iff
    cases queue with
    | nil =>
      rw [TransactionLog.popFront, if_pos (empty.mpr rfl)]
      exact ⟨by simp, represents⟩
    | cons oldest rest =>
      obtain ⟨popped, left⟩ := ih represents.unsafePop
      rw [TransactionLog.popFront, if_neg (by simp [empty])]
      simp only [popped, List.length_cons, List.drop_succ_cons]
      exact ⟨by omega, left⟩

theorem pushBack (represents : Represents log slots queue) (transaction : Transaction) :
    (log.pushBack transaction).1 = .ok (enqueue (slots - 1) queue transaction).1 ∧
      Represents (log.pushBack transaction).2 slots (enqueue (slots - 1) queue transaction).2 := by
  obtain ⟨⟨first, laid⟩, room⟩ := represents
  have pushed := (laid.writeSlot room transaction).advance room transaction (laid.entry_writeSlot transaction)
  have length : (queue ++ [transaction]).length = queue.length + 1 := by simp
  by_cases full : queue.length + 1 > slots - 1
  · -- the push took the last slot, and both positions are the same
    have met : (log.writeSlot transaction).advance.writePos = (log.writeSlot transaction).advance.readPos := by
      have taken : queue.length + 1 = slots := by omega
      rw [pushed.writeAt, pushed.readAt, length, taken, Nat.add_mod_right, Nat.mod_eq_of_lt laid.inside]
    have head := pushed.readEntries 1 0 (by omega)
    rw [Nat.add_zero, Nat.mod_eq_of_lt laid.inside, ← pushed.readAt] at head
    obtain ⟨oldest, rest, whole⟩ := List.exists_cons_of_ne_nil (List.append_ne_nil_of_right_ne_nil queue
      (List.cons_ne_nil transaction []))
    rw [whole] at pushed head length
    simp only [TransactionLog.pushBack, if_pos met, unsafeHead, head, enqueue, if_pos full, whole]
    exact ⟨rfl, ⟨⟨_, pushed.unsafePop⟩, by rw [List.tail_cons]; simp at length; omega⟩⟩
  · have apart : (log.writeSlot transaction).advance.writePos ≠ (log.writeSlot transaction).advance.readPos := by
      intro met
      have empty := (pushed.length_eq_zero_iff (by omega)).mp met.symm
      simp at empty
    simp only [TransactionLog.pushBack, if_neg apart, enqueue, if_neg full]
    exact ⟨trivial, ⟨_, pushed⟩, by omega⟩

theorem load (represents : Represents log slots queue) : load log.filePath log.file slots = .ok log := by
  obtain ⟨⟨first, laid⟩, room⟩ := represents
  have size := initCapacityInBytes_eq slots laid.representable
  rw [laid.load log.filePath slots (by rw [size]; exact Nat.le_add_left _ _), size, if_neg (by simp)]

end Represents

theorem create_represents (path : String) (capacity : Nat) (positive : 1 ≤ capacity)
    (representable : slotPos capacity < 2 ^ 63) :
    ∃ log, create path capacity = .ok log ∧ log.filePath = path ∧ Represents log capacity [] := by
  have size := initCapacityInBytes_eq capacity representable
  have header : 16 ≤ slotPos capacity := Nat.le_add_left _ _
  have length : (File.setLen [] (slotPos capacity)).length = slotPos capacity := File.length_setLen _ _
  have first : ((File.setLen [] (slotPos capacity)).writeAt 0 (toBytes headerSize)).length = slotPos capacity := by
    rw [File.length_writeAt_inside _ _ _ (by rw [length_toBytes, length]; omega), length]
  refine ⟨_, by rw [create, size, resize, if_pos representable]; rfl, rfl, ⟨0, ?_⟩, positive⟩
  exact {
    inside := positive
    room := Nat.zero_le _
    representable
    capacity := rfl
    size := by rw [File.length_writeAt_inside _ _ _ (by rw [length_toBytes, first]; omega), first]
    readAt := by simp [slotPos]
    writeAt := by simp [slotPos]
    writeHeader := Eq.trans (File.range_writeAt _ 8 0 8 (toBytes headerSize) (by rw [first]; omega) (Or.inl le_rfl))
      (File.range_writeAt_self _ 0 (toBytes headerSize))
    readHeader := File.range_writeAt_self _ 8 (toBytes headerSize)
    entries := rfl }

inductive LogCall where
  | pushBack (transaction : Transaction)
  | len
  | front (count : Nat)
  | popFront (count : Nat)
  | reload
  deriving DecidableEq

inductive LogReply where
  | pushed (evicted : Option Transaction)
  | length (count : Nat)
  | listed (transactions : List Transaction)
  | popped (count : Nat)
  | loaded
  | failed (failure : LogFailure)
  deriving DecidableEq

def perform (capacity : Nat) (log : TransactionLog) : LogCall → LogReply × TransactionLog
  | .pushBack transaction =>
    match log.pushBack transaction with
    | (.ok evicted, log) => (.pushed evicted, log)
    | (.error failure, log) => (.failed failure, log)
  | .len => (.length log.len, log)
  | .front count =>
    match log.front count with
    | .ok transactions => (.listed transactions, log)
    | .error failure => (.failed failure, log)
  | .popFront count =>
    let (popped, log) := log.popFront count
    (.popped popped, log)
  | .reload =>
    match load log.filePath log.file capacity with
    | .ok log => (.loaded, log)
    | .error failure => (.failed (.error failure), log)

def answer (capacity : Nat) (queue : List Transaction) : LogCall → LogReply × List Transaction
  | .pushBack transaction =>
    let (evicted, queue) := enqueue (capacity - 1) queue transaction
    (.pushed evicted, queue)
  | .len => (.length queue.length, queue)
  | .front count => (.listed (queue.take (min count queue.length)), queue)
  | .popFront count => (.popped (min count queue.length), queue.drop (min count queue.length))
  | .reload => (.loaded, queue)

def Allocates : LogCall → Prop
  | .front count => count ≤ maxTransactions
  | _ => True

theorem perform_answer (capacity : Nat) (log : TransactionLog) (queue : List Transaction) (call : LogCall)
    (represents : Represents log capacity queue) (allocates : Allocates call) :
    (perform capacity log call).1 = (answer capacity queue call).1 ∧
      Represents (perform capacity log call).2 capacity (answer capacity queue call).2 := by
  cases call with
  | pushBack transaction =>
    obtain ⟨reply, next⟩ := represents.pushBack transaction
    simp only [perform, answer]
    generalize log.pushBack transaction = pushed at reply next
    obtain ⟨result, after⟩ := pushed
    simp only at reply next
    rw [reply]
    exact ⟨rfl, next⟩
  | len => exact ⟨by rw [perform, answer, represents.len], represents⟩
  | front count =>
    simp only [perform, represents.front count allocates, answer]
    exact ⟨by rw [← List.take_eq_take_min], represents⟩
  | popFront count =>
    obtain ⟨reply, next⟩ := represents.popFront count
    simp only [perform, answer, reply]
    rw [List.drop_eq_drop_min] at next
    exact ⟨trivial, next⟩
  | reload =>
    simp only [perform, represents.load]
    exact ⟨rfl, represents⟩

theorem perform_represents (capacity : Nat) (log : TransactionLog) (queue : List Transaction) (call : LogCall)
    (represents : Represents log capacity queue) :
    Represents (perform capacity log call).2 capacity (answer capacity queue call).2 := by
  by_cases allocates : Allocates call
  · exact (perform_answer capacity log queue call represents allocates).2
  · -- a `front` that panics leaves the log as it is
    cases call with
    | front count =>
      simp only [perform, answer]
      split <;> exact represents
    | _ => exact absurd trivial allocates

theorem represents_afterCalls {capacity : Nat} {log : TransactionLog} {queue : List Transaction}
    (represents : Represents log capacity queue) (calls : List LogCall) :
    Represents (afterCalls (perform capacity) log calls) capacity (afterCalls (answer capacity) queue calls) :=
  afterCalls_related _ _ (fun log queue => Represents log capacity queue) (fun _ => True)
    (fun log queue call represents _ => perform_represents capacity log queue call represents)
    calls log queue represents fun _ _ => trivial

theorem created_represents {path : String} {capacity : Nat} (positive : 1 ≤ capacity)
    (representable : capacity * entrySize + headerSize < 2 ^ 63) {start : TransactionLog}
    (created : tryLoadOrCreate path none capacity = .ok start) : Represents start capacity [] := by
  obtain ⟨log, same, _, initial⟩ := create_represents path capacity positive representable
  exact Except.ok.inj (same.symm.trans created) ▸ initial

/-- A log of a capacity that its file can have replies as a queue of one transaction less. -/
theorem replies_of_queue (path : String) (capacity : Nat) (positive : 1 ≤ capacity)
    (representable : capacity * entrySize + headerSize < 2 ^ 63) :
    ∃ log, tryLoadOrCreate path none capacity = .ok log ∧
      ∀ calls, (∀ call ∈ calls, Allocates call) →
        replies (perform capacity) log calls = replies (answer capacity) [] calls := by
  obtain ⟨log, created, _, represents⟩ := create_represents path capacity positive representable
  refine ⟨log, created, fun calls allocate => ?_⟩
  exact replies_eq (perform capacity) (answer capacity) (fun log queue => Represents log capacity queue) Allocates
    (perform_answer capacity) calls log [] represents allocate

theorem replies_of_queue_at_three : ∃ log, tryLoadOrCreate "sensor.log" none 3 = .ok log ∧
    replies (perform 3) log [.pushBack (.writeRecord 1), .pushBack (.writeRecord 2), .pushBack (.updateRecord 1),
      .reload, .front 5, .popFront 1, .len] =
    [.pushed none, .pushed none, .pushed (some (.writeRecord 1)), .loaded,
      .listed [.writeRecord 2, .updateRecord 1], .popped 1, .length 1] := by
  obtain ⟨log, created, same⟩ := replies_of_queue "sensor.log" 3 (by decide) (by decide)
  refine ⟨log, created, (same _ ?_).trans (by decide)⟩
  simp [Allocates, maxTransactions]

theorem replies_beyond_representable :
    (∃ log, tryLoadOrCreate "sensor.log" none 2049638230412172402 = .ok log ∧
      replies (perform 2049638230412172402) log [.pushBack (.writeRecord 1)] ≠
        replies (answer 2049638230412172402) [] [.pushBack (.writeRecord 1)]) ∧
    ∃ log, tryLoadOrCreate "sensor.log" none 2 = .ok log ∧
      replies (perform 2) log [.pushBack (.writeRecord 1), .front (2 ^ 59)] ≠
        replies (answer 2) [] [.pushBack (.writeRecord 1), .front (2 ^ 59)] :=
  ⟨⟨_, rfl, by decide +kernel⟩, ⟨_, rfl, by decide +kernel⟩⟩

end TransactionLog

end ReductStore
