import ReductStore.Shared.BigEndian
import ReductStore.Storage.Block

set_option autoImplicit false

namespace ReductStore

open BigEndian

inductive WalEntry where
  | writeRecord (record : Record)
  | updateRecord (record : Record)
  | removeBlock
  | removeRecord (timestamp : Nat)
  deriving DecidableEq, Repr

namespace WalEntry

def typeCode : WalEntry → UInt8
  | writeRecord _ => 0
  | updateRecord _ => 1
  | removeBlock => 2
  | removeRecord _ => 3

theorem typeCode_ne_stop (entry : WalEntry) : entry.typeCode ≠ 255 := by
  cases entry <;> simp [typeCode]

section Encoding

variable [Codec]

def data : WalEntry → List UInt8
  | writeRecord record => Codec.encodeRecord record
  | updateRecord record => Codec.encodeRecord record
  | removeBlock => []
  | removeRecord timestamp => toBytes timestamp

def encode (entry : WalEntry) : List UInt8 := entry.typeCode :: (toBytes entry.data.length ++ entry.data)

inductive Decoded where
  | entry (entry : WalEntry)
  | error (failure : ReductError)
  | panic
  deriving DecidableEq

def decode (typeCode : UInt8) (data : List UInt8) : Decoded :=
  if typeCode = 0 then
    match Codec.decodeRecord data with
    | some record => .entry (writeRecord record)
    | none => .panic
  else if typeCode = 1 then
    match Codec.decodeRecord data with
    | some record => .entry (updateRecord record)
    | none => .panic
  else if typeCode = 2 then .entry removeBlock
  else if typeCode = 3 then
    if data.length = 8 then .entry (removeRecord (ofBytes data)) else .panic
  else .error (internalServerError "Invalid WAL entry")

def Faithful : WalEntry → Prop
  | writeRecord record =>
    Codec.decodeRecord (Codec.encodeRecord record) = some record ∧ record.encodedLen < 2 ^ 64
  | updateRecord record =>
    Codec.decodeRecord (Codec.encodeRecord record) = some record ∧ record.encodedLen < 2 ^ 64
  | removeBlock => True
  | removeRecord timestamp => timestamp < 2 ^ 64

theorem Faithful.decode {entry : WalEntry} (faithful : entry.Faithful) :
    decode entry.typeCode entry.data = .entry entry := by
  cases entry with
  | writeRecord record => simp [WalEntry.decode, typeCode, data, faithful.1]
  | updateRecord record => simp [WalEntry.decode, typeCode, data, faithful.1]
  | removeBlock => simp [WalEntry.decode, typeCode]
  | removeRecord timestamp => simp [WalEntry.decode, typeCode, data, ofBytes_toBytes timestamp faithful]

theorem Faithful.length {entry : WalEntry} (faithful : entry.Faithful) : entry.data.length < 2 ^ 64 := by
  cases entry with
  | writeRecord record => exact faithful.2
  | updateRecord record => exact faithful.2
  | removeBlock => simp [data]
  | removeRecord timestamp => simp [data]

end Encoding

end WalEntry

namespace Wal

section Reading

variable [Codec]

def walFileSize : Nat := 1000000

def stopMarker : UInt8 := 255

def checksum (entry : WalEntry) : List UInt8 := toBytes (Codec.crc64 entry.encode).toNat

def frame (entry : WalEntry) : List UInt8 := entry.encode ++ checksum entry ++ [stopMarker]

structure LogFile where
  bytes : File
  position : Nat
  deriving DecidableEq

def created : LogFile := { bytes := File.setLen [] walFileSize, position := 0 }

def writePosition (log : LogFile) : Nat := if log.position > 0 then log.position - 1 else log.position

def append (log : Option LogFile) (entry : WalEntry) : LogFile :=
  let log := log.getD created
  { bytes := log.bytes.writeAt (writePosition log) (frame entry)
    position := writePosition log + (frame entry).length }

def appendAll (entries : List WalEntry) : Option LogFile :=
  entries.foldl (fun log entry => some (append log entry)) none

def tornAppend (log : Option LogFile) (entry : WalEntry) (cut : Nat) : File :=
  let log := log.getD created
  log.bytes.writeAt (writePosition log) ((frame entry).take cut)

inductive ReadResult where
  | ok (entries : List WalEntry)
  | error (failure : ReductError)
  | panic
  deriving DecidableEq

def ReadResult.push (entry : WalEntry) : ReadResult → ReadResult
  | ok entries => ok (entry :: entries)
  | error failure => .error failure
  | panic => .panic

def unexpectedEof : ReductError := internalServerError "failed to fill whole buffer"

def readEntry (path : String) (typeCode : UInt8) (rest : List UInt8) :
    WalEntry.Decoded × List UInt8 :=
  let length := ofBytes (rest.take 8)
  let data := (rest.drop 8).take length
  let tail := rest.drop (8 + length)
  let sum := Codec.crc64 (typeCode :: (toBytes length ++ data))
  if rest.length < 8 then (.error unexpectedEof, [])
  else if rest.length < 8 + length then (.error unexpectedEof, [])
  else if tail.length < 8 then (.error unexpectedEof, [])
  else if sum.toNat ≠ ofBytes (tail.take 8) then
    (.error (internalServerError ("WAL \"" ++ path ++ "\" is corrupted")), [])
  else (WalEntry.decode typeCode data, tail.drop 8)

theorem readEntry_shorter (path : String) (typeCode : UInt8) (rest : List UInt8) :
    (readEntry path typeCode rest).2.length ≤ rest.length := by
  simp only [readEntry]
  split_ifs <;> simp

def read (path : String) : List UInt8 → ReadResult
  | [] => .error unexpectedEof
  | typeCode :: rest =>
    if typeCode = stopMarker then .ok []
    else
      match (readEntry path typeCode rest).1 with
      | .entry entry => (read path (readEntry path typeCode rest).2).push entry
      | .error failure => .error failure
      | .panic => .panic
  termination_by bytes => bytes.length
  decreasing_by
    have shorter := readEntry_shorter path typeCode rest
    simp only [List.length_cons]
    omega

def body (entry : WalEntry) : List UInt8 := entry.encode ++ checksum entry

theorem read_body (path : String) (entry : WalEntry) (faithful : entry.Faithful) (rest : List UInt8) :
    read path (body entry ++ rest) = (read path rest).push entry := by
  have bytes : body entry ++ rest =
      entry.typeCode :: (toBytes entry.data.length ++ (entry.data ++ (checksum entry ++ rest))) := by
    simp [body, WalEntry.encode]
  have length : ofBytes (toBytes entry.data.length) = entry.data.length := ofBytes_toBytes _ faithful.length
  have sum : ofBytes (checksum entry) = (Codec.crc64 entry.encode).toNat := ofBytes_toBytes _ (UInt64.toNat_lt _)
  have checked : readEntry path entry.typeCode
      (toBytes entry.data.length ++ (entry.data ++ (checksum entry ++ rest))) = (.entry entry, rest) := by
    have take : (toBytes entry.data.length ++ (entry.data ++ (checksum entry ++ rest))).take 8 =
        toBytes entry.data.length := by simp [List.take_append]
    have drop : (toBytes entry.data.length ++ (entry.data ++ (checksum entry ++ rest))).drop 8 =
        entry.data ++ (checksum entry ++ rest) := by simp [List.drop_append]
    have tail : (toBytes entry.data.length ++ (entry.data ++ (checksum entry ++ rest))).drop (8 + entry.data.length) =
        checksum entry ++ rest := by simp [List.drop_append]
    have enough : (checksum entry).length = 8 := rfl
    have stored : (checksum entry ++ rest).take 8 = checksum entry := by simp [enough]
    have after : (checksum entry ++ rest).drop 8 = rest := by simp [enough]
    simp only [readEntry, take, length, drop, tail, stored, sum, after, List.take_left, faithful.decode]
    simp [WalEntry.encode, enough]
  rw [bytes, read]
  simp [stopMarker, entry.typeCode_ne_stop, checked]

theorem read_bodies (path : String) (entries : List WalEntry) (faithful : ∀ entry ∈ entries, entry.Faithful)
    (rest : List UInt8) :
    read path (entries.flatMap body ++ rest) = entries.foldr ReadResult.push (read path rest) := by
  induction entries with
  | nil => rfl
  | cons entry entries ih =>
    rw [List.flatMap_cons, List.append_assoc, read_body path entry (faithful entry (by simp)),
      ih (fun other member => faithful other (List.mem_cons_of_mem _ member)), List.foldr_cons]

omit [Codec] in
theorem push_ok (entries read : List WalEntry) :
    entries.foldr ReadResult.push (.ok read) = .ok (entries ++ read) := by
  induction entries with
  | nil => rfl
  | cons entry entries ih => simp [ih, ReadResult.push]

omit [Codec] in
theorem push_not_ok (entries : List WalEntry) (result : ReadResult) (failed : ∀ read, result ≠ .ok read)
    (read : List WalEntry) : entries.foldr ReadResult.push result ≠ .ok read := by
  induction entries generalizing read with
  | nil => exact failed read
  | cons entry entries ih =>
    intro success
    cases later : entries.foldr ReadResult.push result with
    | ok found => exact ih found later
    | error failure => simp [later, ReadResult.push] at success
    | panic => simp [later, ReadResult.push] at success

end Reading

end Wal

end ReductStore
