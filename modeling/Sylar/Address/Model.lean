import Sylar.ByteArray.Numbers

/-!
# Internet addresses

`IPv4Address` and `IPv6Address` of `address.h` and `address.cpp` with their
subnet functions. `host` is `SYLAR_BYTE_ORDER`.
-/

namespace Sylar

open Library

/-- `byteswapOnLittleEndian<T>`. -/
def byteswapOnLittleEndian {T : Type} [Word T] (host : Endian) (t : T) : T :=
  if host = .little then byteswap t else t

@[simp] theorem byteswapOnLittleEndian_twice {T : Type} [Word T] {host : Endian} (t : T) :
    byteswapOnLittleEndian host (byteswapOnLittleEndian host t) = t := by
  cases host with
  | little => exact Word.swap_swap t
  | big => rfl

namespace Address

/-- What the language leaves undefined. -/
inductive Undefined where
  | shift
  | index
  deriving DecidableEq

/-- `AF_INET` of Linux. -/
def AF_INET : UInt16 := 2

/-- `AF_INET6` of Linux. -/
def AF_INET6 : UInt16 := 10

/-- `sockaddr_in`. The port and the address are in network byte order. -/
structure SockaddrIn where
  sin_family : UInt16
  sin_port : UInt16
  sin_addr : UInt32
  deriving DecidableEq

/-- `sockaddr_in6`. -/
structure SockaddrIn6 where
  sin6_family : UInt16
  sin6_port : UInt16
  sin6_addr : Vector UInt8 16
  deriving DecidableEq

section Masks

variable (T : Type) [Word T]

/-- `sizeof(T) * 8 - bits`, in the 64 bits of `size_t`. -/
def shiftAmount (bits : UInt32) : UInt64 := UInt64.ofNat (Word.size T * 8) - bits.toUInt64

/-- `CreateMask<T>`. The operand of the shift is an `int`, whose difference wraps. -/
def createMask (bits : UInt32) : Except Undefined T :=
  if shiftAmount T bits < 32 then
    .ok (Word.ofNat ((1#32 <<< (shiftAmount T bits).toNat) - 1#32).toNat)
  else .error .shift

end Masks

namespace IPv4Address

variable (host : Endian)

/-- `IPv4Address(address, port)`. -/
def create (address : UInt32) (port : UInt16) : SockaddrIn where
  sin_family := AF_INET
  sin_port := byteswapOnLittleEndian host port
  sin_addr := byteswapOnLittleEndian host address

/-- The address as a number of the host. -/
def address (m_addr : SockaddrIn) : UInt32 := byteswapOnLittleEndian host m_addr.sin_addr

/-- `broadcastAddress`; `none` is `nullptr`. -/
def broadcastAddress (m_addr : SockaddrIn) (prefix_len : UInt32) :
    Except Undefined (Option SockaddrIn) := do
  if prefix_len > 32 then return none
  let mask ← createMask UInt32 prefix_len
  return some { m_addr with sin_addr := m_addr.sin_addr ||| byteswapOnLittleEndian host mask }

/-- `networdAddress`. -/
def networdAddress (m_addr : SockaddrIn) (prefix_len : UInt32) :
    Except Undefined (Option SockaddrIn) := do
  if prefix_len > 32 then return none
  let mask ← createMask UInt32 prefix_len
  return some { m_addr with sin_addr := m_addr.sin_addr &&& byteswapOnLittleEndian host mask }

/-- `subnetMask`. -/
def subnetMask (prefix_len : UInt32) : Except Undefined SockaddrIn := do
  let mask ← createMask UInt32 prefix_len
  return { sin_family := AF_INET, sin_port := 0, sin_addr := ~~~byteswapOnLittleEndian host mask }

end IPv4Address

namespace IPv6Address

/-- `s6_addr[i] = f(s6_addr[i])`. -/
def modify (s6_addr : Vector UInt8 16) (i : Nat) (f : UInt8 → UInt8) :
    Except Undefined (Vector UInt8 16) :=
  if h : i < 16 then .ok (s6_addr.set i (f s6_addr[i])) else .error .index

/-- The loop that stores `value` from byte `i` on. -/
def fill (s6_addr : Vector UInt8 16) (i : Nat) (value : UInt8) : Vector UInt8 16 :=
  (List.range' i (16 - i)).foldl (fun bytes index => bytes.setIfInBounds index value) s6_addr

/-- The body the subnet functions share: the byte at the boundary of the prefix
becomes what `f` makes of it and its mask, and every later byte is `value`. -/
def storeMasked (s6_addr : Vector UInt8 16) (prefix_len : UInt32) (f : UInt8 → UInt8 → UInt8)
    (value : UInt8) : Except Undefined (Vector UInt8 16) := do
  let mask ← createMask UInt8 (prefix_len % 8)
  let bytes ← modify s6_addr (prefix_len / 8).toNat (f · mask)
  return fill bytes ((prefix_len / 8).toNat + 1) value

/-- `broadcastAddress`. -/
def broadcastAddress (m_addr : SockaddrIn6) (prefix_len : UInt32) :
    Except Undefined SockaddrIn6 := do
  let bytes ← storeMasked m_addr.sin6_addr prefix_len (fun byte mask => byte ||| mask) 0xff
  return { m_addr with sin6_addr := bytes }

/-- `networdAddress`. -/
def networdAddress (m_addr : SockaddrIn6) (prefix_len : UInt32) :
    Except Undefined SockaddrIn6 := do
  let bytes ← storeMasked m_addr.sin6_addr prefix_len (fun byte mask => byte &&& mask) 0x00
  return { m_addr with sin6_addr := bytes }

/-- `subnetMask`. -/
def subnetMask (prefix_len : UInt32) : Except Undefined SockaddrIn6 := do
  let bytes ← storeMasked (Vector.replicate 16 0) prefix_len (fun _ mask => ~~~mask) 0xff
  return { sin6_family := AF_INET6, sin6_port := 0, sin6_addr := bytes }

end IPv6Address

end Address

end Sylar
