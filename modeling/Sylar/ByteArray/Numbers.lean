import Sylar.ByteArray.Model
import Sylar.Library.Word

/-!
# Numbers in a byte array

The `write` and `read` functions of `bytearray.cpp` for fixed-width, zigzag,
varint and floating-point values, and `byteswap` of `endian.h`. `host` is
`SYLAR_BYTE_ORDER`, the byte order of the machine. A `float` or `double` is its
bit pattern: the code only copies it.
-/

namespace Sylar

open Library

instance : Word UInt8 where
  size := 1
  toNat := UInt8.toNat
  ofNat := UInt8.ofNat
  ofNat_toNat := fun _ => UInt8.ofNat_toNat
  toNat_ofNat := fun _ bounded => UInt8.toNat_ofNat_of_lt' bounded
  toNat_lt := UInt8.toNat_lt

instance : Word UInt16 where
  size := 2
  toNat := UInt16.toNat
  ofNat := UInt16.ofNat
  ofNat_toNat := fun _ => UInt16.ofNat_toNat
  toNat_ofNat := fun _ bounded => UInt16.toNat_ofNat_of_lt' bounded
  toNat_lt := UInt16.toNat_lt

instance : Word UInt32 where
  size := 4
  toNat := UInt32.toNat
  ofNat := UInt32.ofNat
  ofNat_toNat := fun _ => UInt32.ofNat_toNat
  toNat_ofNat := fun _ bounded => UInt32.toNat_ofNat_of_lt' bounded
  toNat_lt := UInt32.toNat_lt

instance : Word UInt64 where
  size := 8
  toNat := UInt64.toNat
  ofNat := UInt64.ofNat
  ofNat_toNat := fun _ => UInt64.ofNat_toNat
  toNat_ofNat := fun _ bounded => UInt64.toNat_ofNat_of_lt' bounded
  toNat_lt := UInt64.toNat_lt

instance : Word Int8 where
  size := 1
  toNat value := value.toUInt8.toNat
  ofNat number := (UInt8.ofNat number).toInt8
  ofNat_toNat value := by rw [UInt8.ofNat_toNat, Int8.toInt8_toUInt8]
  toNat_ofNat _ bounded := by rw [UInt8.toUInt8_toInt8, UInt8.toNat_ofNat_of_lt' bounded]
  toNat_lt value := value.toUInt8.toNat_lt

instance : Word Int16 where
  size := 2
  toNat value := value.toUInt16.toNat
  ofNat number := (UInt16.ofNat number).toInt16
  ofNat_toNat value := by rw [UInt16.ofNat_toNat, Int16.toInt16_toUInt16]
  toNat_ofNat _ bounded := by rw [UInt16.toUInt16_toInt16, UInt16.toNat_ofNat_of_lt' bounded]
  toNat_lt value := value.toUInt16.toNat_lt

instance : Word Int32 where
  size := 4
  toNat value := value.toUInt32.toNat
  ofNat number := (UInt32.ofNat number).toInt32
  ofNat_toNat value := by rw [UInt32.ofNat_toNat, Int32.toInt32_toUInt32]
  toNat_ofNat _ bounded := by rw [UInt32.toUInt32_toInt32, UInt32.toNat_ofNat_of_lt' bounded]
  toNat_lt value := value.toUInt32.toNat_lt

instance : Word Int64 where
  size := 8
  toNat value := value.toUInt64.toNat
  ofNat number := (UInt64.ofNat number).toInt64
  ofNat_toNat value := by rw [UInt64.ofNat_toNat, Int64.toInt64_toUInt64]
  toNat_ofNat _ bounded := by rw [UInt64.toUInt64_toInt64, UInt64.toNat_ofNat_of_lt' bounded]
  toNat_lt value := value.toUInt64.toNat_lt

/-- `byteswap<T>`. -/
def byteswap {T : Type} [Word T] (value : T) : T := Word.swap value

namespace ByteArray

section Memory

variable {T : Type} [Word T]

/-- The bytes of `&value`. -/
def memory (host : Endian) (value : T) : List UInt8 :=
  match host with
  | .little => Word.bytes value
  | .big => (Word.bytes value).reverse

/-- The value whose bytes were copied to `&v`. -/
def fromMemory (host : Endian) (image : List UInt8) : T :=
  match host with
  | .little => Word.ofBytes image
  | .big => Word.ofBytes image.reverse

/-- The body of `writeFint16` to `writeFuint64`. -/
def writeFixed (host : Endian) (value : T) : Program Unit := do
  let ba ← get
  let value := if ba.endian ≠ host then byteswap value else value
  write (memory host value)

/-- The macro `XX(type)`, the body of `readFint16` to `readFuint64`. -/
def readFixed (host : Endian) : Program T := do
  let image ← read (Word.size T)
  let v : T := fromMemory host image
  let ba ← get
  if ba.endian = host then return v else return byteswap v

end Memory

def encodeZigzag32 (v : Int32) : UInt32 :=
  if v < 0 then (-v).toUInt32 * 2 - 1 else (v * 2).toUInt32

def encodeZigzag64 (v : Int64) : UInt64 :=
  if v < 0 then (-v).toUInt64 * 2 - 1 else (v * 2).toUInt64

def decodeZigzag32 (v : UInt32) : Int32 := ((v >>> 1) ^^^ -(v &&& 1)).toInt32

def decodeZigzag64 (v : UInt64) : Int64 := ((v >>> 1) ^^^ -(v &&& 1)).toInt64

variable (host : Endian)

def writeFint8 (value : Int8) : Program Unit := write (memory host value)

def writeFuint8 (value : UInt8) : Program Unit := write (memory host value)

def writeFint16 (value : Int16) : Program Unit := writeFixed host value

def writeFuint16 (value : UInt16) : Program Unit := writeFixed host value

def writeFint32 (value : Int32) : Program Unit := writeFixed host value

def writeFuint32 (value : UInt32) : Program Unit := writeFixed host value

def writeFint64 (value : Int64) : Program Unit := writeFixed host value

def writeFuint64 (value : UInt64) : Program Unit := writeFixed host value

/-- The loop that fills `tmp`, which has `room` elements left: groups of seven
bits, the lowest first, all but the last one marked by the top bit. -/
def varintLoop : (room : Nat) → (value : Nat) → Except Fault (List UInt8)
  | 0, _ => .error .arrayIndex
  | room + 1, value =>
      if value ≥ 0x80 then do
        let rest ← varintLoop room (value >>> 7)
        return UInt8.ofNat ((value &&& 0x7F) ||| 0x80) :: rest
      else .ok [UInt8.ofNat value]

/-- The body of `writeUint32` and `writeUint64`, whose `tmp` has `room` elements. -/
def writeVarint (room value : Nat) : Program Unit :=
  match varintLoop room value with
  | .error fault => throw fault
  | .ok tmp => write tmp

def writeUint32 (value : UInt32) : Program Unit := writeVarint 5 value.toNat

def writeInt32 (value : Int32) : Program Unit := writeUint32 (encodeZigzag32 value)

def writeUint64 (value : UInt64) : Program Unit := writeVarint 10 value.toNat

def writeInt64 (value : Int64) : Program Unit := writeUint64 (encodeZigzag64 value)

def writeFloat (bits : UInt32) : Program Unit := writeFuint32 host bits

def writeDouble (bits : UInt64) : Program Unit := writeFuint64 host bits

def readFint8 : Program Int8 := do
  let image ← read (Word.size Int8)
  return fromMemory host image

/-- `readFuint8` reads into an `int8_t`. -/
def readFuint8 : Program UInt8 := do
  let image ← read (Word.size Int8)
  let v : Int8 := fromMemory host image
  return v.toUInt8

def readFint16 : Program Int16 := readFixed host

def readFuint16 : Program UInt16 := readFixed host

def readFint32 : Program Int32 := readFixed host

def readFuint32 : Program UInt32 := readFixed host

def readFint64 : Program Int64 := readFixed host

def readFuint64 : Program UInt64 := readFixed host

/-- `for(int i = 0; i < width; i += 7)` of `readUint32` and `readUint64`, with
`result` of `width` bits. `width` turns are more than the loop makes. -/
def readVarintLoop (width : Nat) : (turns : Nat) → (i result : Nat) → Program Nat
  | 0, _, result => return result
  | turns + 1, i, result =>
      if i < width then do
        let b ← readFuint8 host
        if b < 0x80 then return result ||| (b.toNat <<< i) % 2 ^ width
        else
          let more := ((b.toNat &&& 0x7f) <<< i) % 2 ^ width
          readVarintLoop width turns (i + 7) (result ||| more)
      else return result

def readUint32 : Program UInt32 := do
  let result ← readVarintLoop host 32 32 0 0
  return UInt32.ofNat result

def readInt32 : Program Int32 := do
  let v ← readUint32 host
  return decodeZigzag32 v

def readUint64 : Program UInt64 := do
  let result ← readVarintLoop host 64 64 0 0
  return UInt64.ofNat result

def readInt64 : Program Int64 := do
  let v ← readUint64 host
  return decodeZigzag64 v

def readFloat : Program UInt32 := readFuint32 host

def readDouble : Program UInt64 := readFuint64 host

/-- The formats a number can be written in. -/
inductive Format where
  | fint8 | fuint8 | fint16 | fuint16 | fint32 | fuint32 | fint64 | fuint64
  | int32 | uint32 | int64 | uint64
  | float | double
deriving DecidableEq, Repr

namespace Format

/-- The C++ type of a format; floating-point types stand for their bit patterns. -/
abbrev Carrier : Format → Type
  | fint8 => Int8
  | fuint8 => UInt8
  | fint16 => Int16
  | fuint16 => UInt16
  | fint32 => Int32
  | fuint32 => UInt32
  | fint64 => Int64
  | fuint64 => UInt64
  | int32 => Int32
  | uint32 => UInt32
  | int64 => Int64
  | uint64 => UInt64
  | float => UInt32
  | double => UInt64

/-- The writing function of a format. -/
def write : (format : Format) → format.Carrier → Program Unit
  | fint8 => writeFint8 host
  | fuint8 => writeFuint8 host
  | fint16 => writeFint16 host
  | fuint16 => writeFuint16 host
  | fint32 => writeFint32 host
  | fuint32 => writeFuint32 host
  | fint64 => writeFint64 host
  | fuint64 => writeFuint64 host
  | int32 => writeInt32
  | uint32 => writeUint32
  | int64 => writeInt64
  | uint64 => writeUint64
  | float => writeFloat host
  | double => writeDouble host

/-- The reading function of a format. -/
def read : (format : Format) → Program format.Carrier
  | fint8 => readFint8 host
  | fuint8 => readFuint8 host
  | fint16 => readFint16 host
  | fuint16 => readFuint16 host
  | fint32 => readFint32 host
  | fuint32 => readFuint32 host
  | fint64 => readFint64 host
  | fuint64 => readFuint64 host
  | int32 => readInt32 host
  | uint32 => readUint32 host
  | int64 => readInt64 host
  | uint64 => readUint64 host
  | float => readFloat host
  | double => readDouble host

end Format

/-- A value tagged with its format. -/
abbrev Number := (format : Format) × format.Carrier

/-- Write values one after another. -/
def writeNumbers : List Number → Program Unit
  | [] => return ()
  | ⟨format, value⟩ :: rest => do
      format.write host value
      writeNumbers rest

/-- Read values of the given formats one after another. -/
def readNumbers : List Format → Program (List Number)
  | [] => return []
  | format :: rest => do
      let value ← format.read host
      let values ← readNumbers rest
      return ⟨format, value⟩ :: values

/-- Write the values to a fresh byte array, go back and read them. -/
def numberSession (val : Bool) (values : List Number) : Program (List Number) := do
  setIsLittleEndian val
  writeNumbers host values
  setPosition 0
  readNumbers host (values.map Sigma.fst)

end ByteArray

end Sylar
