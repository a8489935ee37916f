import Mathlib

set_option autoImplicit false

namespace ReductStore

inductive ErrorCode where
  | interrupt
  | connectionError
  | timeout
  | noContent
  | badRequest
  | unauthorized
  | notFound
  | conflict
  | unprocessableEntity
  | tooEarly
  | tooManyRequests
  | internalServerError
  | badGateway
  | serviceUnavailable
  | gatewayTimeout
  deriving DecidableEq, Repr

structure ReductError where
  status : ErrorCode
  message : String
  deriving DecidableEq, Repr

def badRequest (message : String) : ReductError := { status := .badRequest, message }

def unauthorized (message : String) : ReductError := { status := .unauthorized, message }

def notFound (message : String) : ReductError := { status := .notFound, message }

def conflict (message : String) : ReductError := { status := .conflict, message }

def unprocessableEntity (message : String) : ReductError := { status := .unprocessableEntity, message }

def internalServerError (message : String) : ReductError := { status := .internalServerError, message }

inductive RecordState where
  | started
  | finished
  | errored
  | invalid
  deriving DecidableEq, Repr

structure Label where
  name : String
  value : String
  deriving DecidableEq, Repr

structure Record where
  timestamp : Nat
  beginPos : Nat
  endPos : Nat
  state : RecordState
  labels : List Label
  contentType : String
  deriving DecidableEq, Repr

def Record.length (record : Record) : Nat := record.endPos - record.beginPos

def Record.withState (state : RecordState) (record : Record) : Record := { record with state }

theorem Record.timestamp_withState (state : RecordState) (record : Record) :
    (record.withState state).timestamp = record.timestamp := rfl

def Record.moved (first last : Nat) (record : Record) : Record := { record with beginPos := first, endPos := last }

theorem Record.timestamp_moved (first last : Nat) (record : Record) :
    (record.moved first last).timestamp = record.timestamp := rfl

structure BlockProto where
  beginTime : Nat
  latestRecordTime : Nat
  size : Nat
  recordCount : Nat
  metadataSize : Nat
  records : List Record
  version : Option Nat
  corrupted : Option Bool
  deriving DecidableEq, Repr

/-- The message encoding and the checksum, which the storage takes from other crates. -/
class Codec where
  encodeRecord : Record → List UInt8
  decodeRecord : List UInt8 → Option Record
  encodeBlock : BlockProto → List UInt8
  crc64 : List UInt8 → UInt64

def Record.encodedLen [Codec] (record : Record) : Nat := (Codec.encodeRecord record).length

def BlockProto.crc [Codec] (proto : BlockProto) : UInt64 := Codec.crc64 (Codec.encodeBlock proto)

end ReductStore
