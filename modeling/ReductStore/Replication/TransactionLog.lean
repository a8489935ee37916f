import ReductStore.Shared.BigEndian
import ReductStore.Shared.File
import ReductStore.Storage.Record

set_option autoImplicit false

namespace ReductStore

open BigEndian

inductive Transaction where
  | writeRecord (timestamp : UInt64)
  | updateRecord (timestamp : UInt64)
  deriving DecidableEq, Repr

namespace Transaction

def typeCode : Transaction → UInt8
  | writeRecord _ => 0
  | updateRecord _ => 1

def timestamp : Transaction → UInt64
  | writeRecord timestamp => timestamp
  | updateRecord timestamp => timestamp

def encode (transaction : Transaction) : List UInt8 :=
  transaction.typeCode :: toBytes transaction.timestamp.toNat

@[simp] theorem length_encode (transaction : Transaction) : transaction.encode.length = 9 := rfl

end Transaction

inductive LogFailure where
  | error (failure : ReductError)
  | panic
  deriving DecidableEq

def headerSize : Nat := 16

def entrySize : Nat := 9

structure TransactionLog where
  filePath : String
  capacityInBytes : Nat
  writePos : Nat
  readPos : Nat
  file : File
  deriving DecidableEq

namespace TransactionLog

-- the product is taken in 64 bits
def initCapacityInBytes (capacity : Nat) : Nat := (capacity * entrySize + headerSize) % 2 ^ 64

def resize (file : File) (length : Nat) : Except ReductError File :=
  if length < 2 ^ 63 then .ok (file.setLen length)
  else .error (internalServerError "out of range integral type conversion attempted")

def checkPos (path : String) (capacityInBytes pos : Nat) (name : String) : Except ReductError Unit :=
  if pos < headerSize ∨ pos ≥ capacityInBytes ∨ (pos - headerSize) % entrySize ≠ 0 then
    .error (internalServerError
      ("Invalid " ++ name ++ " position " ++ toString pos ++ " in transaction log " ++ path))
  else .ok ()

def integrityCheck (path : String) (initCapacityInBytes capacityInBytes writePos readPos : Nat) :
    Except ReductError Unit :=
  if initCapacityInBytes < headerSize ∨ (capacityInBytes - headerSize) % entrySize ≠ 0 then
    .error (internalServerError ("Invalid size " ++ toString capacityInBytes ++ " of transaction log " ++ path))
  else do
    checkPos path capacityInBytes writePos "write"
    checkPos path capacityInBytes readPos "read"

def create (path : String) (capacity : Nat) : Except ReductError TransactionLog := do
  let size := initCapacityInBytes capacity
  let file ← resize [] size
  let file := file.writeAt 0 (toBytes headerSize)
  let file := file.writeAt 8 (toBytes headerSize)
  pure { filePath := path, capacityInBytes := size, writePos := headerSize, readPos := headerSize, file }

def load (path : String) (file : File) (capacity : Nat) : Except ReductError TransactionLog :=
  if file.length < 16 then .error (internalServerError "failed to fill whole buffer")
  else do
    let size := initCapacityInBytes capacity
    let capacityInBytes := file.length
    let writePos := ofBytes (file.range 0 8)
    let readPos := ofBytes (file.range 8 16)
    integrityCheck path size capacityInBytes writePos readPos
    if size ≠ capacityInBytes ∧ readPos = writePos then
      -- only an empty log changes its capacity
      let file ← resize file size
      pure { filePath := path, capacityInBytes := size, writePos, readPos, file }
    else pure { filePath := path, capacityInBytes, writePos, readPos, file }

def tryLoadOrCreate (path : String) (file : Option File) (capacity : Nat) : Except ReductError TransactionLog :=
  match file with
  | none => create path capacity
  | some file => load path file capacity

def nextPos (log : TransactionLog) (pos : Nat) : Nat :=
  if pos + entrySize ≥ log.capacityInBytes then headerSize else pos + entrySize

def isEmpty (log : TransactionLog) : Bool := log.readPos = log.writePos

def wrappingSub (value other : Nat) : Nat := (value + 2 ^ 64 - other) % 2 ^ 64

def wrappingAdd (value other : Nat) : Nat := (value + other) % 2 ^ 64

def len (log : TransactionLog) : Nat :=
  let lenInBytes :=
    if log.readPos ≤ log.writePos then log.writePos - log.readPos
    else wrappingAdd (wrappingSub (wrappingSub log.capacityInBytes headerSize) log.readPos) log.writePos
  lenInBytes / entrySize

def readEntry (log : TransactionLog) (pos : Nat) : Except LogFailure Transaction :=
  let bytes := log.file.range pos (pos + entrySize)
  match bytes with
  | [] => .error (.error (internalServerError "failed to fill whole buffer"))
  | code :: stamp =>
    if stamp.length < 8 then .error (.error (internalServerError "failed to fill whole buffer"))
    else if code = 0 then .ok (.writeRecord (UInt64.ofNat (ofBytes stamp)))
    else if code = 1 then .ok (.updateRecord (UInt64.ofNat (ofBytes stamp)))
    else .error (.error (internalServerError "Invalid transaction type"))

def readEntries (log : TransactionLog) : Nat → Nat → Except LogFailure (List Transaction)
  | 0, _ => .ok []
  | count + 1, pos => do
    let transaction ← log.readEntry pos
    let pos := log.nextPos pos
    if pos = log.writePos then pure [transaction]
    else
      let rest ← log.readEntries count pos
      pure (transaction :: rest)

-- a vector of 16-byte transactions holds at most `isize::MAX` bytes
def maxTransactions : Nat := 2 ^ 59 - 1

def unsafeHead (log : TransactionLog) (count : Nat) : Except LogFailure (List Transaction) :=
  if count > maxTransactions then .error .panic else log.readEntries count log.readPos

def unsafePop (log : TransactionLog) : TransactionLog :=
  let readPos := log.nextPos log.readPos
  { log with readPos, file := log.file.writeAt 8 (toBytes readPos) }

def writeSlot (log : TransactionLog) (transaction : Transaction) : TransactionLog :=
  { log with file := log.file.writeAt log.writePos transaction.encode }

def advance (log : TransactionLog) : TransactionLog :=
  let writePos := log.nextPos log.writePos
  { log with writePos, file := log.file.writeAt 0 (toBytes writePos) }

def pushBack (log : TransactionLog) (transaction : Transaction) :
    Except LogFailure (Option Transaction) × TransactionLog :=
  let log := (log.writeSlot transaction).advance
  if log.writePos = log.readPos then
    match log.unsafeHead 1 with
    | .error failure => (.error failure, log)
    | .ok transactions => (.ok transactions.head?, log.unsafePop)
  else (.ok none, log)

def front (log : TransactionLog) (count : Nat) : Except LogFailure (List Transaction) :=
  if log.isEmpty then .ok [] else log.unsafeHead count

def popFront (log : TransactionLog) : Nat → Nat × TransactionLog
  | 0 => (0, log)
  | count + 1 =>
    if log.readPos = log.writePos then (0, log)
    else
      let (popped, log) := log.unsafePop.popFront count
      (popped + 1, log)

end TransactionLog

end ReductStore
