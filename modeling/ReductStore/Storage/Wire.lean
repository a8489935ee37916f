import ReductStore.Shared.Protobuf
import ReductStore.Storage.Record

set_option autoImplicit false

namespace ReductStore.Wire

open Protobuf

def encodeTimestamp (micros : Nat) : List UInt8 :=
  scalarField 1 (micros / 1000000) ++ scalarField 2 (micros % 1000000 * 1000)

def stateCode : RecordState → Nat
  | .started => 0
  | .finished => 1
  | .errored => 2
  | .invalid => 3

def encodeLabel (label : Label) : List UInt8 := stringField 1 label.name ++ stringField 2 label.value

def encodeRecord (record : Record) : List UInt8 :=
  bytesField 1 (encodeTimestamp record.timestamp) ++ scalarField 2 record.beginPos ++ scalarField 3 record.endPos ++
    scalarField 4 (stateCode record.state) ++ record.labels.flatMap (fun label => bytesField 5 (encodeLabel label)) ++
    stringField 6 record.contentType

def encodeBlock (proto : BlockProto) : List UInt8 :=
  bytesField 1 (encodeTimestamp proto.beginTime) ++ bytesField 2 (encodeTimestamp proto.latestRecordTime) ++
    scalarField 3 proto.size ++ proto.records.flatMap (fun record => bytesField 4 (encodeRecord record)) ++
    scalarField 6 proto.recordCount ++ scalarField 7 proto.metadataSize ++
    (proto.version.map (varintField 8)).getD [] ++
    (proto.corrupted.map (fun corrupted => varintField 9 corrupted.toNat)).getD []

def decodeState : Nat → RecordState
  | 0 => .started
  | 1 => .finished
  | 2 => .errored
  | _ => .invalid

def decodeTimestamp (bytes : List UInt8) : Option Nat := do
  let found ← fields bytes
  pure (scalarOf found 1 * 1000000 + scalarOf found 2 / 1000)

def decodeLabel (bytes : List UInt8) : Option Label := do
  let found ← fields bytes
  let name ← stringOf found 1
  let value ← stringOf found 2
  pure { name, value }

def decodeRecord (bytes : List UInt8) : Option Record := do
  let found ← fields bytes
  let stamp ← (messagesOf found 1).getLast?
  let timestamp ← decodeTimestamp stamp
  let labels ← (messagesOf found 5).mapM decodeLabel
  let contentType ← stringOf found 6
  pure { timestamp, beginPos := scalarOf found 2, endPos := scalarOf found 3,
         state := decodeState (scalarOf found 4), labels, contentType }

def crcBits : Nat → UInt64 → UInt64
  | 0, crc => crc
  | count + 1, crc =>
    crcBits count (if crc &&& 1 = 1 then (crc >>> 1) ^^^ 0xC96C5795D7870F42 else crc >>> 1)

def crc64 (bytes : List UInt8) : UInt64 :=
  bytes.foldl (fun crc byte => crcBits 8 (crc ^^^ byte.toUInt64)) 0xFFFFFFFFFFFFFFFF ^^^ 0xFFFFFFFFFFFFFFFF

example : crc64 [0x31, 0x32, 0x33, 0x34, 0x35, 0x36, 0x37, 0x38, 0x39] = 0x995DC9BBDF1939FA := by decide +kernel

instance codec : Codec := { encodeRecord, decodeRecord, encodeBlock, crc64 }

def sample : Record :=
  { timestamp := 1, beginPos := 1, endPos := 2, state := .started, labels := [], contentType := "application/json" }

example : sample.encodedLen = 27 := by decide +kernel

end ReductStore.Wire
