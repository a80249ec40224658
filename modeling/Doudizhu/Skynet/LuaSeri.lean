import Doudizhu.Lib.Reader
import Doudizhu.Network.SprotoWire

/-! # Serialized Lua values

`lua-seri.c`: `skynet.pack` and `skynet.unpack`, the format of every message between services.
A value is a byte with its type in the low three bits and a cookie in the high five, and then
its data; a table is its array, its other pairs, and a nil.  The packer writes to a chain of
blocks of 128 bytes, and `seri` copies them to one buffer.

`Value` is what the packer asks of a Lua value.  `table array hash` has `array` at 1, 2, ...,
`lua_rawlen` and `hash` elsewhere; `metapairs` is a table with a `__pairs` and what that yields;
`real` and `lightuserdata` are the eight bytes of the double and of the pointer.  Strings and
arrays are shorter than 2^31. -/

set_option autoImplicit false

namespace Doudizhu.Skynet.LuaSeri

open Network (Bytes fill todword)

inductive Value where
  | nil
  | boolean (b : Bool)
  | integer (n : Int64)
  | real (bits : UInt64)
  | lightuserdata (p : UInt64)
  | string (s : Bytes)
  | table (array : List Value) (hash : List (Value × Value))
  | metapairs (pairs : List (Value × Value))
  | other (typename : String)

def typeNil : ℕ := 0
def typeBoolean : ℕ := 1
def typeNumber : ℕ := 2
def typeNumberZero : ℕ := 0
def typeNumberByte : ℕ := 1
def typeNumberWord : ℕ := 2
def typeNumberDword : ℕ := 4
def typeNumberQword : ℕ := 6
def typeNumberReal : ℕ := 8
def typeUserdata : ℕ := 3
def typeShortString : ℕ := 4
def typeLongString : ℕ := 5
def typeTable : ℕ := 6

def maxCookie : ℕ := 32
def blockSize : ℕ := 128
def maxDepth : ℕ := 32

def combineType (t v : ℕ) : UInt8 := UInt8.ofNat (t ||| v <<< 3)

/-! ## Blocks -/

/-- The chain up to `current`: the blocks before it, which are full, and what is in it up to
`ptr`. -/
structure WriteBlock where
  full : List Bytes
  current : Bytes
  len : ℕ

def wbInit : WriteBlock := ⟨[], [], 0⟩

def WriteBlock.alloc (b : WriteBlock) : WriteBlock :=
  { b with full := b.full ++ [b.current], current := [] }

def WriteBlock.copy (b : WriteBlock) (buffer : Bytes) : WriteBlock :=
  { b with current := b.current ++ buffer, len := b.len + buffer.length }

/-- From the test on; each time round at least one byte has been copied. -/
def wbPushLoop : ℕ → WriteBlock → Bytes → WriteBlock
  | 0, b, _ => b
  | n + 1, b, buffer =>
      if b.current.length + buffer.length ≤ blockSize then b.copy buffer
      else
        let room := blockSize - b.current.length
        wbPushLoop n (b.copy (buffer.take room)).alloc (buffer.drop room)

def wbPush (b : WriteBlock) (buffer : Bytes) : WriteBlock :=
  wbPushLoop (buffer.length + 1) (if b.current.length = blockSize then b.alloc else b) buffer

/-- The copy of the blocks; `none` where it would read past the last of them. -/
def seri : List Bytes → ℕ → Option Bytes
  | _, 0 => some []
  | [], _ + 1 => none
  | b :: next, len + 1 =>
      if blockSize ≤ len + 1 then (seri next (len + 1 - blockSize)).map (b.take blockSize ++ ·)
      else some (b.take (len + 1))

/-! ## Packing -/

def wbNil : List Bytes := [[combineType typeNil 0]]

def wbBoolean (b : Bool) : List Bytes := [[combineType typeBoolean b.toNat]]

def wbInteger (v : Int64) : List Bytes :=
  if v = 0 then [[combineType typeNumber typeNumberZero]]
  else if v ≠ v.toInt32.toInt64 then
    [[combineType typeNumber typeNumberQword], fill 8 v.toUInt64.toNat]
  else if v < 0 then
    [[combineType typeNumber typeNumberDword], fill 4 v.toInt32.toUInt32.toNat]
  else if v < 0x100 then
    [[combineType typeNumber typeNumberByte], fill 1 v.toUInt64.toUInt8.toNat]
  else if v < 0x10000 then
    [[combineType typeNumber typeNumberWord], fill 2 v.toUInt64.toUInt16.toNat]
  else [[combineType typeNumber typeNumberDword], fill 4 v.toUInt64.toUInt32.toNat]

def wbReal (bits : UInt64) : List Bytes :=
  [[combineType typeNumber typeNumberReal], fill 8 bits.toNat]

def wbPointer (p : UInt64) : List Bytes := [[combineType typeUserdata 0], fill 8 p.toNat]

def wbString (s : Bytes) : List Bytes :=
  if s.length < maxCookie then
    if 0 < s.length then [[combineType typeShortString s.length], s]
    else [[combineType typeShortString s.length]]
  else if s.length < 0x10000 then
    [[combineType typeLongString 2], fill 2 s.length, s]
  else [[combineType typeLongString 4], fill 4 s.length, s]

def inArray (arraySize : ℕ) : Value → Bool
  | .integer x => 0 < x.toInt && x.toInt ≤ arraySize
  | _ => false

/-- What `lua_next` yields: the array from `i` on, less its holes, and the other pairs. -/
def nextPairs : ℕ → List Value → List (Value × Value) → List (Value × Value)
  | _, [], hash => hash
  | i, .nil :: array, hash => nextPairs (i + 1) array hash
  | i, v :: array, hash => (.integer (Int64.ofNat i), v) :: nextPairs (i + 1) array hash

section Tables
variable (one : Value → Except String (List Bytes))

def packArray : List Value → Except String (List Bytes)
  | [] => .ok []
  | v :: array => do
      let piece ← one v
      let pieces ← packArray array
      return piece ++ pieces

def wbTableArray (array : List Value) : Except String (List Bytes) := do
  let pieces ← packArray one array
  if array.length ≥ maxCookie - 1 then
    return [combineType typeTable (maxCookie - 1)] :: wbInteger (Int64.ofNat array.length) ++ pieces
  else return [combineType typeTable array.length] :: pieces

def wbTableHash (arraySize : ℕ) : List (Value × Value) → Except String (List Bytes)
  | [] => .ok wbNil
  | (k, v) :: next =>
      if inArray arraySize k then wbTableHash arraySize next
      else do
        let key ← one k
        let value ← one v
        let pieces ← wbTableHash arraySize next
        return key ++ value ++ pieces

def packPairs : List (Value × Value) → Except String (List Bytes)
  | [] => .ok wbNil
  | (k, v) :: next => do
      let key ← one k
      let value ← one v
      let pieces ← packPairs next
      return key ++ value ++ pieces

def wbTableMetapairs (pairs : List (Value × Value)) : Except String (List Bytes) := do
  let pieces ← packPairs one pairs
  return [combineType typeTable 0] :: pieces

def wbTable (array : List Value) (hash : List (Value × Value)) : Except String (List Bytes) := do
  let elements ← wbTableArray one array
  let pairs ← wbTableHash one array.length (nextPairs 1 array hash)
  return elements ++ pairs

end Tables

/-- The buffers given to `wb_push`, in their order.  `levels` is `MAX_DEPTH + 1 - depth`. -/
def packOne : ℕ → Value → Except String (List Bytes)
  | 0, _ => .error "serialize can't pack too depth table"
  | _ + 1, .nil => .ok wbNil
  | _ + 1, .integer x => .ok (wbInteger x)
  | _ + 1, .real n => .ok (wbReal n)
  | _ + 1, .boolean b => .ok (wbBoolean b)
  | _ + 1, .string s => .ok (wbString s)
  | _ + 1, .lightuserdata p => .ok (wbPointer p)
  | levels + 1, .table array hash => wbTable (packOne levels) array hash
  | levels + 1, .metapairs pairs => wbTableMetapairs (packOne levels) pairs
  | _ + 1, .other typename => .error ("Unsupport type " ++ typename ++ " to serialize")

def packFrom (vs : List Value) : Except String (List Bytes) :=
  packArray (packOne (maxDepth + 1)) vs

def luaseriPack (vs : List Value) : Except String (Option (Bytes × ℕ)) := do
  let pieces ← packFrom vs
  let wb := pieces.foldl wbPush wbInit
  return (seri (wb.full ++ [wb.current]) wb.len).map fun buffer => (buffer, wb.len)

/-! ## Unpacking -/

/-- `invalid_stream` with what was left of the stream and the line of the call.  A string of 2^31
bytes and more has a negative `int` for its length, and Lua refuses to make it. -/
inductive SeriError where
  | invalidStream (len line : ℕ)
  | toobig
  | nanIndex
  deriving DecidableEq

abbrev ReadBlock (α : Type) : Type := Reader UInt8 SeriError α

def invalidStream (line : ℕ) (rb : Bytes) : SeriError := .invalidStream rb.length line

def rbRead (sz line : ℕ) : ReadBlock Bytes := Reader.take sz (invalidStream line)

def getInteger (cookie : ℕ) : ReadBlock Int64 :=
  if cookie = typeNumberZero then .pure 0
  else if cookie = typeNumberByte then
    (rbRead 1 366).bind fun n => .pure (UInt8.ofNat (todword n)).toUInt64.toInt64
  else if cookie = typeNumberWord then
    (rbRead 2 374).bind fun n => .pure (UInt16.ofNat (todword n)).toUInt64.toInt64
  else if cookie = typeNumberDword then
    (rbRead 4 382).bind fun n => .pure (UInt32.ofNat (todword n)).toInt32.toInt64
  else if cookie = typeNumberQword then
    (rbRead 8 390).bind fun n => .pure (UInt64.ofNat (todword n)).toInt64
  else .fail (invalidStream 395)

def getReal : ReadBlock UInt64 := (rbRead 8 405).bind fun n => .pure (UInt64.ofNat (todword n))

def getPointer : ReadBlock UInt64 := (rbRead 8 415).bind fun v => .pure (UInt64.ofNat (todword v))

def getBuffer (len : ℕ) : ReadBlock Bytes :=
  if len < 2 ^ 31 then rbRead len 425 else .fail fun _ => .toobig

/-- The exponent of the double is all ones and its mantissa is not 0. -/
def isNaN (bits : UInt64) : Bool :=
  bits.toNat / 2 ^ 52 % 2 ^ 11 = 2 ^ 11 - 1 && bits.toNat % 2 ^ 52 ≠ 0

/-- `lua_rawset` takes every key but nil, which ends the table here, and NaN. -/
def nanKey : Value → Bool
  | .real bits => isNaN bits
  | _ => false

section Tables
variable (one : ReadBlock Value)

/-- At most `fuel` pairs; with no more bytes than that, the stream is at its end after them. -/
def unpackPairs : ℕ → ReadBlock (List (Value × Value))
  | 0 => .fail (invalidStream 526)
  | fuel + 1 => one.bind fun k =>
      match k with
      | .nil => .pure []
      | k => one.bind fun v =>
          if nanKey k then .fail fun _ => .nanIndex
          else (unpackPairs fuel).bind fun pairs => .pure ((k, v) :: pairs)

def arraySizeOf (cookie : ℕ) : ReadBlock ℕ :=
  if cookie = maxCookie - 1 then
    (rbRead 1 438).bind fun t =>
      let type := todword t
      if type &&& 7 ≠ typeNumber ∨ type >>> 3 = typeNumberReal then .fail (invalidStream 443)
      else (getInteger (type >>> 3)).bind fun n => .pure n.toInt32.toInt.toNat
  else .pure cookie

def unpackTable (fuel cookie : ℕ) : ReadBlock Value :=
  (arraySizeOf cookie).bind fun arraySize =>
    (one.count arraySize).bind fun array =>
      (unpackPairs one fuel).bind fun hash => .pure (.table array hash)

def pushValue (fuel type cookie : ℕ) : ReadBlock Value :=
  if type = typeNil then .pure .nil
  else if type = typeBoolean then .pure (.boolean (cookie ≠ 0))
  else if type = typeNumber then
    if cookie = typeNumberReal then getReal.bind fun n => .pure (.real n)
    else (getInteger cookie).bind fun x => .pure (.integer x)
  else if type = typeUserdata then getPointer.bind fun p => .pure (.lightuserdata p)
  else if type = typeShortString then (getBuffer cookie).bind fun s => .pure (.string s)
  else if type = typeLongString then
    if cookie = 2 then
      (rbRead 2 491).bind fun n => (getBuffer (todword n)).bind fun s => .pure (.string s)
    else if cookie ≠ 4 then .fail (invalidStream 498)
    else (rbRead 4 502).bind fun n => (getBuffer (todword n)).bind fun s => .pure (.string s)
  else if type = typeTable then unpackTable one fuel cookie
  else .fail (invalidStream 515)

end Tables

/-- On a stream of no more than `fuel` bytes: each value takes one at least, so that without fuel
the stream is at its end. -/
def unpackOne : ℕ → ReadBlock Value
  | 0 => .fail (invalidStream 526)
  | fuel + 1 => (rbRead 1 526).bind fun t =>
      pushValue (unpackOne fuel) fuel (todword t &&& 7) (todword t >>> 3)

def unpackNext : ReadBlock Value := fun rb => unpackOne rb.length rb

def luaseriUnpack (buffer : Bytes) : Except SeriError (List Value) :=
  (unpackNext.many buffer.length buffer).map Prod.fst

end Doudizhu.Skynet.LuaSeri
