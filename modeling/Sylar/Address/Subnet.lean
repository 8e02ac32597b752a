import Sylar.Address.Model
import Sylar.Library.LeadingOnes

/-!
# Subnets

What `subnetMask`, `networdAddress` and `broadcastAddress` compute, against the
mask of `prefix_len` leading ones. `CreateMask` is the complement of that mask;
both versions of `networdAddress` apply it as it is.
-/

namespace Sylar.Address

open Library

section Masks

variable {T : Type} [Word T]

theorem toNat_shiftAmount {bits : UInt32} (narrow : Word.size T * 8 < 2 ^ 64)
    (within : bits.toNat ≤ Word.size T * 8) :
    (shiftAmount T bits).toNat = Word.size T * 8 - bits.toNat := by
  have total : (UInt64.ofNat (Word.size T * 8)).toNat = Word.size T * 8 :=
    UInt64.toNat_ofNat_of_lt' narrow
  have le : bits.toUInt64 ≤ UInt64.ofNat (Word.size T * 8) := by
    rw [UInt64.le_iff_toNat_le, total, UInt32.toNat_toUInt64]
    exact within
  rw [shiftAmount, UInt64.toNat_sub_of_le _ _ le, total, UInt32.toNat_toUInt64]

theorem toNat_shift_sub_one {amount : Nat} (small : amount < 32) :
    ((1#32 <<< amount) - 1#32).toNat = 2 ^ amount - 1 := by
  have fits : 2 ^ amount < 2 ^ 32 := Nat.pow_lt_pow_right (by decide) small
  have shifted : (1#32 <<< amount).toNat = 2 ^ amount := by
    rw [BitVec.toNat_shiftLeft, BitVec.toNat_ofNat, Nat.shiftLeft_eq]
    simpa using Nat.mod_eq_of_lt fits
  have le : 1#32 ≤ 1#32 <<< amount := by
    rw [BitVec.le_def, shifted]
    exact Nat.one_le_two_pow
  rw [BitVec.toNat_sub_of_le le, shifted]
  rfl

theorem createMask_defined {bits : UInt32} (narrow : Word.size T * 8 < 2 ^ 64)
    (within : bits.toNat ≤ Word.size T * 8) (small : Word.size T * 8 - bits.toNat < 32) :
    createMask T bits = .ok (Word.ofNat (2 ^ (Word.size T * 8 - bits.toNat) - 1)) := by
  have amount := toNat_shiftAmount narrow within
  have below : shiftAmount T bits < 32 := by
    rw [UInt64.lt_iff_toNat_lt, amount]
    exact small
  rw [createMask, if_pos below, amount, toNat_shift_sub_one small]

end Masks

section ByteOrder

variable {host : Endian}

theorem getLsbD_byteswap (t : UInt32) {index : Nat} (inside : index < 32) :
    (byteswap t).toBitVec.getLsbD index =
      t.toBitVec.getLsbD (8 * (3 - index / 8) + index % 8) :=
  Word.testBit_swap t inside

theorem byteswapOnLittleEndian_and (left right : UInt32) :
    byteswapOnLittleEndian host (left &&& right) =
      byteswapOnLittleEndian host left &&& byteswapOnLittleEndian host right := by
  cases host with
  | little =>
      apply UInt32.eq_of_toBitVec_eq
      apply BitVec.eq_of_getLsbD_eq
      intro index inside
      simp only [byteswapOnLittleEndian, if_true, UInt32.toBitVec_and, BitVec.getLsbD_and,
        getLsbD_byteswap _ inside]
  | big => rfl

theorem byteswapOnLittleEndian_or (left right : UInt32) :
    byteswapOnLittleEndian host (left ||| right) =
      byteswapOnLittleEndian host left ||| byteswapOnLittleEndian host right := by
  cases host with
  | little =>
      apply UInt32.eq_of_toBitVec_eq
      apply BitVec.eq_of_getLsbD_eq
      intro index inside
      simp only [byteswapOnLittleEndian, if_true, UInt32.toBitVec_or, BitVec.getLsbD_or,
        getLsbD_byteswap _ inside]
  | big => rfl

theorem byteswapOnLittleEndian_not (t : UInt32) :
    byteswapOnLittleEndian host (~~~t) = ~~~byteswapOnLittleEndian host t := by
  cases host with
  | little =>
      apply UInt32.eq_of_toBitVec_eq
      apply BitVec.eq_of_getLsbD_eq
      intro index inside
      have opposite : 8 * (3 - index / 8) + index % 8 < 32 := by omega
      simp only [byteswapOnLittleEndian, if_true, UInt32.toBitVec_not, BitVec.getLsbD_not,
        getLsbD_byteswap _ inside, inside, opposite]
  | big => rfl

end ByteOrder

namespace IPv4Address

/-- The mask of `prefix_len` leading ones. -/
def leadingMask (prefix_len : UInt32) : UInt32 := .ofBitVec (leadingOnes 32 prefix_len.toNat)

variable {host : Endian}

theorem createMask_eq {prefix_len : UInt32} (positive : 1 ≤ prefix_len) (le : prefix_len ≤ 32) :
    createMask UInt32 prefix_len = .ok (~~~leadingMask prefix_len) := by
  rw [UInt32.le_iff_toNat_le] at positive le
  have within : prefix_len.toNat ≤ Word.size UInt32 * 8 := le
  have small : Word.size UInt32 * 8 - prefix_len.toNat < 32 := Nat.sub_lt (by decide) positive
  rw [createMask_defined (by decide) within small]
  congr 1
  apply UInt32.eq_of_toBitVec_eq
  rw [UInt32.toBitVec_not]
  exact (not_leadingOnes prefix_len.toNat).symm

theorem createMask_zero : createMask UInt32 0 = .error .shift := by
  have amount : ¬shiftAmount UInt32 0 < 32 := by
    rw [UInt64.lt_iff_toNat_lt, toNat_shiftAmount (by decide) (by decide)]
    decide
  rw [createMask, if_neg amount]

section Functions

variable {prefix_len : UInt32} (positive : 1 ≤ prefix_len) (le : prefix_len ≤ 32)
include positive le

theorem subnetMask_eq :
    subnetMask host prefix_len =
      .ok { sin_family := AF_INET, sin_port := 0,
            sin_addr := byteswapOnLittleEndian host (leadingMask prefix_len) } := by
  rw [subnetMask, createMask_eq positive le]
  simp only [Except.bind, bind, pure, Except.pure, byteswapOnLittleEndian_not, UInt32.not_not]

/-- The address with what the mask leaves out set. -/
theorem broadcastAddress_eq (m_addr : SockaddrIn) :
    broadcastAddress host m_addr prefix_len =
      .ok (some { m_addr with
        sin_addr := m_addr.sin_addr |||
          byteswapOnLittleEndian host (~~~leadingMask prefix_len) }) := by
  rw [broadcastAddress, createMask_eq positive le, if_neg (UInt32.not_lt.mpr le)]
  rfl

/-- What the mask leaves out of the address, not what it keeps. -/
theorem networdAddress_eq (m_addr : SockaddrIn) :
    networdAddress host m_addr prefix_len =
      .ok (some { m_addr with
        sin_addr := m_addr.sin_addr &&&
          byteswapOnLittleEndian host (~~~leadingMask prefix_len) }) := by
  rw [networdAddress, createMask_eq positive le, if_neg (UInt32.not_lt.mpr le)]
  rfl

end Functions

theorem address_and (m_addr : SockaddrIn) (mask : UInt32) :
    address host { m_addr with sin_addr := m_addr.sin_addr &&& byteswapOnLittleEndian host mask } =
      address host m_addr &&& mask := by
  rw [address, byteswapOnLittleEndian_and, byteswapOnLittleEndian_twice, address]

theorem address_or (m_addr : SockaddrIn) (mask : UInt32) :
    address host { m_addr with sin_addr := m_addr.sin_addr ||| byteswapOnLittleEndian host mask } =
      address host m_addr ||| mask := by
  rw [address, byteswapOnLittleEndian_or, byteswapOnLittleEndian_twice, address]

theorem and_not_eq_and_leadingMask_iff {word prefix_len : UInt32} :
    word &&& ~~~leadingMask prefix_len = word &&& leadingMask prefix_len ↔ word = 0 := by
  have bits := and_not_eq_and_iff word.toBitVec (leadingMask prefix_len).toBitVec
  rw [← UInt32.toBitVec_not, ← UInt32.toBitVec_and, ← UInt32.toBitVec_and,
    UInt32.toBitVec_inj] at bits
  exact bits.trans UInt32.toBitVec_inj

/-- The subnet of an address is what its mask of leading ones says: `address`
reads the result of each function as a number of the host. -/
structure Subnets (host : Endian) (m_addr : SockaddrIn) (prefix_len : UInt32) : Prop where
  shift : shiftAmount UInt32 prefix_len < 32
  mask : ∃ subnet, subnetMask host prefix_len = .ok subnet ∧
    address host subnet = leadingMask prefix_len
  network : ∃ baddr, networdAddress host m_addr prefix_len = .ok (some baddr) ∧
    address host baddr = address host m_addr &&& leadingMask prefix_len ∧
    baddr.sin_port = m_addr.sin_port ∧ baddr.sin_family = m_addr.sin_family ∧
    address host baddr ≤ address host m_addr
  broadcast : ∃ baddr, broadcastAddress host m_addr prefix_len = .ok (some baddr) ∧
    address host baddr = address host m_addr ||| ~~~leadingMask prefix_len ∧
    baddr.sin_port = m_addr.sin_port ∧ baddr.sin_family = m_addr.sin_family ∧
    address host m_addr ≤ address host baddr

/-- Only for the address `0.0.0.0`, whose host part is as empty as its network
part, and a mask that is not empty. -/
theorem subnets_iff (host : Endian) (m_addr : SockaddrIn) (prefix_len : UInt32)
    (le : prefix_len ≤ 32) :
    Subnets host m_addr prefix_len ↔ 1 ≤ prefix_len ∧ address host m_addr = 0 := by
  constructor
  · intro subnets
    have positive : 1 ≤ prefix_len := by
      by_contra not_positive
      have zero : prefix_len = 0 := by
        rw [UInt32.le_iff_toNat_le] at not_positive
        apply UInt32.toNat_inj.mp
        exact Nat.lt_one_iff.mp (Nat.not_le.mp not_positive)
      obtain ⟨subnet, returns, _⟩ := subnets.mask
      rw [zero, subnetMask, createMask_zero] at returns
      cases returns
    obtain ⟨baddr, returns, kept, _⟩ := subnets.network
    rw [networdAddress_eq positive le] at returns
    cases returns
    rw [address_and] at kept
    exact ⟨positive, and_not_eq_and_leadingMask_iff.mp kept⟩
  · rintro ⟨positive, zero⟩
    refine ⟨?_, ⟨_, subnetMask_eq positive le, byteswapOnLittleEndian_twice _⟩,
      ⟨_, networdAddress_eq positive le m_addr, ?_, rfl, rfl, ?_⟩,
      ⟨_, broadcastAddress_eq positive le m_addr, ?_, rfl, rfl, ?_⟩⟩
    · by_contra undefined
      have defined := createMask_eq positive le
      rw [createMask, if_neg undefined] at defined
      cases defined
    · rw [address_and]
      exact and_not_eq_and_leadingMask_iff.mpr zero
    · rw [address_and]
      exact and_le _ _
    · rw [address_or]
    · rw [address_or]
      exact le_or _ _

theorem subnets_iff_any :
    Subnets .little (create .little 0 80) 24 ↔
      (1 : UInt32) ≤ 24 ∧ address .little (create .little 0 80) = 0 :=
  subnets_iff .little (create .little 0 80) 24 (by decide)

/-- `192.168.1.10/24`, whose network is given as `0.0.0.10`. -/
theorem networdAddress_host_part :
    ¬∀ m_addr prefix_len, prefix_len ≤ 32 → Subnets .little m_addr prefix_len := by
  intro subnets
  obtain ⟨baddr, returns, kept, _⟩ := (subnets (create .little 0xc0a8010a 0) 24 (by decide)).network
  have host_part : networdAddress .little (create .little 0xc0a8010a 0) 24 =
      .ok (some (create .little 0x0000000a 0)) := by decide
  rw [host_part] at returns
  cases returns
  exact absurd kept (by decide)

end IPv4Address

namespace IPv6Address

/-- The mask of `prefix_len` leading ones over the bytes of an address. -/
def leadingMask (prefix_len : UInt32) : Vector UInt8 16 :=
  Vector.ofFn fun index => .ofBitVec (leadingOnes 8 (prefix_len.toNat - 8 * index.val))

/-- Counted over the whole address, the bits set are the first `prefix_len`. -/
theorem getMsbD_leadingMask (prefix_len : UInt32) {index bit : Nat} (inside : index < 16)
    (low : bit < 8) :
    (leadingMask prefix_len)[index].toBitVec.getMsbD bit =
      decide (8 * index + bit < prefix_len.toNat) := by
  rw [leadingMask, Vector.getElem_ofFn, UInt8.toBitVec_ofBitVec, getMsbD_leadingOnes _ low,
    decide_eq_decide]
  change bit < prefix_len.toNat - 8 * index ↔ _
  omega

theorem createMask_eq (prefix_len : UInt32) :
    createMask UInt8 (prefix_len % 8) =
      .ok (~~~.ofBitVec (leadingOnes 8 (prefix_len.toNat % 8))) := by
  have remainder : (prefix_len % 8).toNat = prefix_len.toNat % 8 := UInt32.toNat_mod _ _
  have within : (prefix_len % 8).toNat ≤ Word.size UInt8 * 8 := by
    rw [remainder]
    exact (Nat.mod_lt _ (by decide)).le
  have small : Word.size UInt8 * 8 - (prefix_len % 8).toNat < 32 :=
    (Nat.sub_le _ _).trans_lt (by decide)
  rw [createMask_defined (by decide) within small, remainder]
  congr 1
  apply UInt8.eq_of_toBitVec_eq
  rw [UInt8.toBitVec_not]
  exact (not_leadingOnes (prefix_len.toNat % 8)).symm

theorem getElem_foldl_setIfInBounds (value : UInt8) {index : Nat} (inside : index < 16)
    (count start : Nat) (s6_addr : Vector UInt8 16) :
    ((List.range' start count).foldl (fun bytes i => bytes.setIfInBounds i value) s6_addr)[index] =
      if start ≤ index ∧ index < start + count then value else s6_addr[index] := by
  induction count generalizing start s6_addr with
  | zero =>
      rw [if_neg (by omega)]
      rfl
  | succ count inductionHypothesis =>
      rw [List.range'_succ, List.foldl_cons, inductionHypothesis, Vector.getElem_setIfInBounds]
      split_ifs <;> first | rfl | omega

theorem getElem_fill (s6_addr : Vector UInt8 16) (i : Nat) (value : UInt8) {index : Nat}
    (inside : index < 16) :
    (fill s6_addr i value)[index] = if i ≤ index then value else s6_addr[index] := by
  rw [fill, getElem_foldl_setIfInBounds value inside]
  split_ifs <;> first | rfl | omega

/-- What the shared body stores at each byte, by its place beside the boundary. -/
theorem storeMasked_eq (s6_addr : Vector UInt8 16) {prefix_len : UInt32}
    (lt : prefix_len.toNat < 128) (f : UInt8 → UInt8 → UInt8) (value : UInt8) :
    ∃ bytes, storeMasked s6_addr prefix_len f value = .ok bytes ∧
      ∀ index (inside : index < 16), bytes[index] =
        if index < prefix_len.toNat / 8 then s6_addr[index]
        else if index = prefix_len.toNat / 8 then
          f s6_addr[index] (~~~.ofBitVec (leadingOnes 8 (prefix_len.toNat % 8)))
        else value := by
  have boundary : (prefix_len / 8).toNat = prefix_len.toNat / 8 := UInt32.toNat_div _ _
  have inside : prefix_len.toNat / 8 < 16 := by omega
  have stored : storeMasked s6_addr prefix_len f value =
      .ok (fill (s6_addr.set (prefix_len.toNat / 8) (f s6_addr[prefix_len.toNat / 8]
        (~~~.ofBitVec (leadingOnes 8 (prefix_len.toNat % 8))))) (prefix_len.toNat / 8 + 1)
        value) := by
    rw [storeMasked, createMask_eq, boundary]
    simp only [bind, Except.bind, modify, inside, dif_pos]
    rfl
  refine ⟨_, stored, ?_⟩
  intro index within
  rw [getElem_fill _ _ _ within, Vector.getElem_set]
  rcases Nat.lt_trichotomy index (prefix_len.toNat / 8) with before | rfl | after
  · rw [if_neg (by omega), if_neg (by omega), if_pos before]
  · rw [if_neg (by omega), if_pos rfl, if_neg (by omega), if_pos rfl]
  · rw [if_pos (by omega), if_neg (by omega), if_neg (by omega)]

/-- At 128 the boundary is behind the last byte. -/
theorem storeMasked_error (s6_addr : Vector UInt8 16) {prefix_len : UInt32}
    (ge : 128 ≤ prefix_len.toNat) (f : UInt8 → UInt8 → UInt8) (value : UInt8) :
    storeMasked s6_addr prefix_len f value = .error .index := by
  have boundary : (prefix_len / 8).toNat = prefix_len.toNat / 8 := UInt32.toNat_div _ _
  have outside : ¬prefix_len.toNat / 8 < 16 := by omega
  rw [storeMasked, createMask_eq, boundary]
  simp only [bind, Except.bind, modify, dif_neg outside]

/-- The mask, byte by byte beside the boundary. -/
theorem getElem_leadingMask (prefix_len : UInt32) {index : Nat} (inside : index < 16) :
    (leadingMask prefix_len)[index] =
      if index < prefix_len.toNat / 8 then 0xff
      else if index = prefix_len.toNat / 8 then
        .ofBitVec (leadingOnes 8 (prefix_len.toNat % 8))
      else 0 := by
  have byte : (leadingMask prefix_len)[index] =
      .ofBitVec (leadingOnes 8 (prefix_len.toNat - 8 * index)) := Vector.getElem_ofFn _
  rw [byte]
  rcases Nat.lt_trichotomy index (prefix_len.toNat / 8) with before | rfl | after
  · rw [if_pos before, leadingOnes_full (by omega)]
    rfl
  · rw [if_neg (Nat.lt_irrefl _), if_pos rfl]
    congr 2
    omega
  · rw [if_neg (by omega), if_neg (by omega), show prefix_len.toNat - 8 * index = 0 by omega,
      leadingOnes_zero]
    rfl

/-- The broadcast address is right below a prefix of 128. -/
theorem broadcastAddress_eq (m_addr : SockaddrIn6) {prefix_len : UInt32}
    (lt : prefix_len.toNat < 128) :
    broadcastAddress m_addr prefix_len =
      .ok { m_addr with
        sin6_addr := m_addr.sin6_addr.zipWith (fun byte mask => byte ||| ~~~mask)
          (leadingMask prefix_len) } := by
  obtain ⟨bytes, stored, each⟩ :=
    storeMasked_eq m_addr.sin6_addr lt (fun byte mask => byte ||| mask) 0xff
  rw [broadcastAddress, stored]
  change Except.ok _ = _
  congr 2
  ext index inside
  rw [each index inside, Vector.getElem_zipWith, getElem_leadingMask _ inside]
  split_ifs
  · simp
  · rfl
  · simp

theorem and_not_eq_and_byte_iff {byte mask : UInt8} :
    byte &&& ~~~mask = byte &&& mask ↔ byte = 0 := by
  have bits := and_not_eq_and_iff byte.toBitVec mask.toBitVec
  rw [← UInt8.toBitVec_not, ← UInt8.toBitVec_and, ← UInt8.toBitVec_and,
    UInt8.toBitVec_inj] at bits
  exact bits.trans UInt8.toBitVec_inj

/-- The network address keeps the bytes before the boundary, and of the boundary's
byte what the mask leaves out. -/
theorem networdAddress_eq_iff (m_addr : SockaddrIn6) {prefix_len : UInt32}
    (lt : prefix_len.toNat < 128) :
    networdAddress m_addr prefix_len =
      .ok { m_addr with
        sin6_addr := m_addr.sin6_addr.zipWith (fun byte mask => byte &&& mask)
          (leadingMask prefix_len) } ↔
      m_addr.sin6_addr[prefix_len.toNat / 8] = 0 := by
  obtain ⟨bytes, stored, each⟩ :=
    storeMasked_eq m_addr.sin6_addr lt (fun byte mask => byte &&& mask) 0x00
  have inside : prefix_len.toNat / 8 < 16 := by omega
  have returns : networdAddress m_addr prefix_len = .ok { m_addr with sin6_addr := bytes } := by
    rw [networdAddress, stored]
    rfl
  constructor
  · intro right
    rw [returns] at right
    have same := congrArg SockaddrIn6.sin6_addr (Except.ok.inj right)
    have boundary := congrArg (fun bytes : Vector UInt8 16 => bytes[prefix_len.toNat / 8]) same
    simp only [each _ inside, Vector.getElem_zipWith, getElem_leadingMask _ inside,
      Nat.lt_irrefl, if_false, if_true] at boundary
    exact and_not_eq_and_byte_iff.mp boundary
  · intro zero
    rw [returns]
    congr 2
    ext index within
    rw [each index within, Vector.getElem_zipWith, getElem_leadingMask _ within]
    rcases Nat.lt_trichotomy index (prefix_len.toNat / 8) with before | rfl | after
    · rw [if_pos before, if_pos before]
      rw [show (0xff : UInt8) = -1 from rfl, UInt8.and_neg_one]
    · rw [if_neg (Nat.lt_irrefl _), if_pos rfl, if_neg (Nat.lt_irrefl _), if_pos rfl]
      exact congrArg UInt8.toNat (and_not_eq_and_byte_iff.mpr zero)
    · rw [if_neg (by omega), if_neg (by omega), if_neg (by omega), if_neg (by omega)]
      simp

/-- The mask comes with the bytes before its boundary clear and those behind it set. -/
theorem subnetMask_bytes {prefix_len : UInt32} {subnet : SockaddrIn6}
    (returns : subnetMask prefix_len = .ok subnet) {index : Nat} (inside : index < 16) :
    (index < prefix_len.toNat / 8 → subnet.sin6_addr[index] = 0) ∧
      (prefix_len.toNat / 8 < index → subnet.sin6_addr[index] = 0xff) := by
  by_cases lt : prefix_len.toNat < 128
  · obtain ⟨bytes, stored, each⟩ :=
      storeMasked_eq (Vector.replicate 16 0) lt (fun _ mask => ~~~mask) 0xff
    rw [subnetMask, stored] at returns
    obtain rfl := (Except.ok.inj returns).symm
    constructor
    · intro before
      rw [each index inside, if_pos before]
      exact Vector.getElem_replicate _
    · intro after
      rw [each index inside, if_neg (by omega), if_neg (by omega)]
  · rw [subnetMask, storeMasked_error _ (Nat.not_lt.mp lt)] at returns
    cases returns

/-- The subnet of an address is what its mask of leading ones says. -/
structure Subnets (m_addr : SockaddrIn6) (prefix_len : UInt32) : Prop where
  index : (prefix_len / 8).toNat < 16
  mask : ∃ subnet, subnetMask prefix_len = .ok subnet ∧
    subnet.sin6_addr = leadingMask prefix_len
  network : ∃ baddr, networdAddress m_addr prefix_len = .ok baddr ∧
    baddr.sin6_addr = m_addr.sin6_addr.zipWith (fun byte mask => byte &&& mask)
      (leadingMask prefix_len)
  broadcast : ∃ baddr, broadcastAddress m_addr prefix_len = .ok baddr ∧
    baddr.sin6_addr = m_addr.sin6_addr.zipWith (fun byte mask => byte ||| ~~~mask)
      (leadingMask prefix_len)

/-- Never: the boundary would have to be the first byte, with none to set before
it, and the last, with none to clear behind it. -/
theorem not_subnets (m_addr : SockaddrIn6) (prefix_len : UInt32) :
    ¬Subnets m_addr prefix_len := by
  intro subnets
  obtain ⟨subnet, returns, same⟩ := subnets.mask
  rcases Nat.eq_zero_or_pos (prefix_len.toNat / 8) with zero | positive
  · have set := (subnetMask_bytes returns (by decide : 15 < 16)).2 (by omega)
    rw [same, getElem_leadingMask _ (by decide), if_neg (by omega), if_neg (by omega)] at set
    exact absurd set (by decide)
  · have clear := (subnetMask_bytes returns (by decide : 0 < 16)).1 positive
    rw [same, getElem_leadingMask _ (by decide), if_pos positive] at clear
    exact absurd clear (by decide)

/-- `2001:db8::1/64`: the mask starts with a byte that is clear. -/
theorem subnetMask_first_byte :
    ¬∀ m_addr prefix_len, prefix_len ≤ 128 → Subnets m_addr prefix_len := by
  intro subnets
  have every := subnets
    { sin6_family := AF_INET6, sin6_port := 0
      sin6_addr := #v[0x20, 0x01, 0x0d, 0xb8, 0, 0, 0, 0, 0, 0, 0, 0, 0, 0, 0, 1] }
    64 (by decide)
  obtain ⟨subnet, returns, same⟩ := every.mask
  have clear := (subnetMask_bytes returns (by decide : 0 < 16)).1 (by decide)
  rw [same, getElem_leadingMask _ (by decide)] at clear
  exact absurd clear (by decide)

end IPv6Address

end Sylar.Address
