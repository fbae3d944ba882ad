/-
**The parcels of the display binder.**

A parcel is a header of four words and a payload of values, each padded to a multiple of four bytes.
The reader moves over the payload and fails on the first value that does not fit; the writer pads
what it appends.

Main definitions:

* `ParcelReader`, `ParcelReader.decode` — a parcel and the position in its payload;
* `readI32`, `readFlattened`, `readInterfaceToken` — reading one value;
* `writeI32`, `writeFlattened`, `finish` — writing.
-/
import Nixe.Parsing

set_option autoImplicit false

namespace Nixe.Parcel

open Parsing

inductive ParcelError
  | malformed (reason : String)
  | unsupported (reason : String)
  deriving DecidableEq, Repr

def headerSize : ℕ := 16

def maxParcelBytes : ℕ := 0x4000

/-! ### Reading -/

structure ParcelReader where
  payload : List UInt8
  position : ℕ
  deriving DecidableEq, Repr

/-- A computation that reads from a parcel. -/
abbrev Reads (α : Type) : Type := StateT ParcelReader (Except ParcelError) α

/-- `read_u32` of a header. -/
def headerWord (bytes : List UInt8) (offset : ℕ) : Except ParcelError ℕ :=
  match slice? bytes offset (offset + 4) with
  | some word => .ok (leNat word)
  | none => .error (.malformed "Parcel header is truncated")

/-- `ParcelReader::decode`; sums of two words do not overflow a `usize`. -/
def ParcelReader.decode (encoded : List UInt8) : Except ParcelError ParcelReader := do
  if encoded.length < headerSize ∨ maxParcelBytes < encoded.length then
    throw (.malformed "Parcel has an invalid total size")
  let payloadSize ← headerWord encoded 0
  let payloadOffset ← headerWord encoded 4
  let objectsSize ← headerWord encoded 8
  let objectsOffset ← headerWord encoded 12
  let payloadEnd := payloadOffset + payloadSize
  let objectsEnd := objectsOffset + objectsSize
  if payloadOffset < headerSize ∨ encoded.length < payloadEnd ∨ encoded.length < objectsEnd then
    throw (.malformed "Parcel range exceeds its buffer")
  if objectsSize ≠ 0 then throw (.unsupported "Parcel Binder objects are not supported")
  return { payload := (encoded.take payloadEnd).drop payloadOffset, position := 0 }

def readExact (size : ℕ) : Reads (List UInt8) := fun reader =>
  let stop := reader.position + (size + 3) / 4 * 4
  match slice? reader.payload reader.position (reader.position + size) with
  | none => .error (.malformed "Parcel payload is truncated")
  | some data =>
    if reader.payload.length < stop then .error (.malformed "Parcel alignment exceeds payload")
    else .ok (data, { reader with position := stop })

/-- `i32::from_le_bytes`. -/
def leI32 (bytes : List UInt8) : ℤ := (BitVec.ofNat 32 (leNat bytes)).toInt

def readI32 : Reads ℤ := leI32 <$> readExact 4

def readU32 : Reads ℕ := leNat <$> readExact 4

def readFlattened : Reads (List UInt8) := do
  let size ← readI32
  let fdCount ← readI32
  if size < 0 ∨ fdCount ≠ 0 then throw (.malformed "flattened Parcel object header is invalid")
  readExact size.toNat

/-- The units of two bytes. -/
def units : List UInt8 → List ℕ
  | low :: high :: rest => leNat [low, high] :: units rest
  | _ => []

/-- `read_interface_token`, for a token whose characters are one unit each. -/
def readInterfaceToken (expected : String) : Reads Unit := do
  if (← readU32) ≠ 0x100 then throw (.malformed "Binder interface token policy is invalid")
  let length ← readI32
  if length < 0 then throw (.malformed "Binder interface token length is negative")
  let length := length.toNat
  let encoded ← readExact ((length + 1) * 2)
  if (units encoded).take length ≠ expected.toList.map Char.toNat ∨
      slice? encoded (length * 2) (length * 2 + 2) ≠ some [0, 0] then
    throw (.malformed "Binder interface token does not match")

/-! ### Writing -/

/-- `u32::to_le_bytes`. -/
def u32Bytes (value : ℕ) : List UInt8 :=
  (List.range 4).map fun i => UInt8.ofNat (value / 256 ^ i % 256)

variable (payload : List UInt8)

def writeU32 (value : ℕ) : List UInt8 := payload ++ u32Bytes value

def writeI32 (value : ℤ) : List UInt8 :=
  payload ++ u32Bytes (BitVec.ofInt 32 value).toNat

def writeFlattened (value : List UInt8) : Except ParcelError (List UInt8) :=
  if 2 ^ 31 ≤ value.length then .error (.malformed "flattened Parcel object is too large")
  else
    let payload := writeI32 (writeI32 payload value.length) 0 ++ value
    .ok (payload ++ List.replicate ((payload.length + 3) / 4 * 4 - payload.length) 0)

def finish : Except ParcelError (List UInt8) :=
  let total := headerSize + payload.length
  if 2 ^ 32 ≤ total then .error (.malformed "Parcel response size overflows")
  else
    .ok (u32Bytes payload.length ++ u32Bytes headerSize ++ u32Bytes 0 ++ u32Bytes total ++ payload)

end Nixe.Parcel
