import Sylar.Address.Model
import Sylar.Http.Request
import Sylar.Library.AddressText

/-!
# The text of an address

`IPv6Address::insert`. The zeros that `::` stands for are found on the way, with a flag
and a look at the group before.
-/

namespace Sylar.Address.IPv6Address

open Library (digitsText AddressText readAddress joinGroups IsGroup numeral)
open Http (bytes)

section Model

variable (host : Endian)

/-- `addr[i]`, the bytes of the address as numbers of type `uint16_t`. -/
def addr (m_addr : SockaddrIn6) (i : Nat) : UInt16 :=
  ByteArray.fromMemory host ((m_addr.sin6_addr.toList.drop (2 * i)).take 2)

/-- The body of the loop, with what was written and `used_zeros`. -/
def insertGroup (m_addr : SockaddrIn6) (os : List UInt8 × Bool) (i : Nat) : List UInt8 × Bool :=
  if addr host m_addr i = 0 ∧ ¬os.2 then os
  else
    let os :=
      if i ≠ 0 ∧ addr host m_addr (i - 1) = 0 ∧ ¬os.2 then (os.1 ++ bytes ":", true) else os
    let os := if i ≠ 0 then (os.1 ++ bytes ":", os.2) else os
    (os.1 ++ digitsText 16 (byteswapOnLittleEndian host (addr host m_addr i)).toNat, os.2)

/-- `insert`. -/
def insert (m_addr : SockaddrIn6) : List UInt8 :=
  let os := (List.range 8).foldl (insertGroup host m_addr) ([], false)
  bytes "[" ++ os.1 ++ (if ¬os.2 ∧ addr host m_addr 7 = 0 then bytes "::" else []) ++
    bytes "]:" ++ digitsText 10 (byteswapOnLittleEndian host m_addr.sin6_port).toNat

end Model

/-- A group of an address, of which the first byte is the high one. -/
def group (m_addr : SockaddrIn6) (i : Nat) : Nat :=
  256 * (m_addr.sin6_addr.toList.getD (2 * i) 0).toNat +
    (m_addr.sin6_addr.toList.getD (2 * i + 1) 0).toNat

/-- The eight groups of an address. -/
def groups (m_addr : SockaddrIn6) : List Nat := (List.range 8).map (group m_addr)

section Groups

variable {host : Endian} {m_addr : SockaddrIn6} {i : Nat}

/-- The bytes of a number in network byte order. -/
theorem byteswap_fromMemory (host : Endian) (high low : UInt8) :
    byteswapOnLittleEndian host (ByteArray.fromMemory host [high, low] : UInt16) =
      Library.Word.ofBytes [low, high] := by
  cases host with
  | little =>
      change Library.Word.swap (Library.Word.ofBytes [high, low] : UInt16) = _
      rw [Library.Word.swap, Library.Word.bytes_ofBytes rfl]
      rfl
  | big => rfl

theorem toNat_ofBytes (high low : UInt8) :
    (Library.Word.ofBytes [low, high] : UInt16).toNat = 256 * high.toNat + low.toNat := by
  have highBound := high.toNat_lt
  have lowBound := low.toNat_lt
  change (UInt16.ofNat (low.toNat + 256 * (high.toNat + 256 * 0))).toNat = _
  have bound : low.toNat + 256 * (high.toNat + 256 * 0) < UInt16.size := by
    change _ < 65536
    omega
  rw [UInt16.toNat_ofNat_of_lt' bound]
  omega

/-- The number that is written for a group. -/
theorem toNat_addr (host : Endian) (m_addr : SockaddrIn6) (inside : i < 8) :
    (byteswapOnLittleEndian host (addr host m_addr i)).toNat = group m_addr i := by
  have length : m_addr.sin6_addr.toList.length = 16 := Vector.length_toList
  have image : (m_addr.sin6_addr.toList.drop (2 * i)).take 2 =
      [m_addr.sin6_addr.toList.getD (2 * i) 0, m_addr.sin6_addr.toList.getD (2 * i + 1) 0] := by
    rw [List.drop_eq_getElem_cons (by omega), List.drop_eq_getElem_cons (by omega),
      List.getD_eq_getElem _ _ (by omega), List.getD_eq_getElem _ _ (by omega)]
    rfl
  rw [addr, image, byteswap_fromMemory, toNat_ofBytes]
  rfl

/-- A group is zero if its number is, in either byte order. -/
theorem addr_eq_zero (host : Endian) (m_addr : SockaddrIn6) (inside : i < 8) :
    addr host m_addr i = 0 ↔ group m_addr i = 0 := by
  rw [← toNat_addr host m_addr inside]
  have zero : byteswapOnLittleEndian host (0 : UInt16) = 0 := by cases host <;> decide
  constructor
  · intro null
    rw [null, zero]
    rfl
  · intro null
    rw [← byteswapOnLittleEndian_twice (addr host m_addr i),
      UInt16.toNat_inj.mp (null.trans UInt16.toNat_zero.symm), zero]

theorem group_lt (m_addr : SockaddrIn6) (i : Nat) : group m_addr i < 16 ^ 4 := by
  have high := (m_addr.sin6_addr.toList.getD (2 * i) 0).toNat_lt
  have low := (m_addr.sin6_addr.toList.getD (2 * i + 1) 0).toNat_lt
  unfold group
  omega

end Groups

/-- The groups between colons. -/
def joinText (groups : List Nat) : List UInt8 := joinGroups (groups.map (digitsText 16))

/-- What the loop has written for the groups so far: those in front of some zeros, or all of them
with `::` for the first zeros. -/
inductive Written : List Nat → List UInt8 × Bool → Prop
  | pending (left : List Nat) (zeros : Nat) (nonzero : 0 ∉ left) :
      Written (left ++ List.replicate zeros 0) (joinText left, false)
  | compressed (left : List Nat) (zeros : Nat) (right : List Nat) (some_ : right ≠ []) :
      Written (left ++ (List.replicate (zeros + 1) 0 ++ right))
        (joinText left ++ 58 :: 58 :: joinText right, true)

section Loop

variable {host : Endian} {m_addr : SockaddrIn6} {i : Nat}

theorem joinText_concat {groups : List Nat} (some_ : groups ≠ []) (n : Nat) :
    joinText (groups ++ [n]) = joinText groups ++ 58 :: digitsText 16 n := by
  rw [joinText, List.map_append]
  exact Library.joinGroups_concat (by simpa using some_) _

theorem joinText_singleton (n : Nat) : joinText [n] = digitsText 16 n := by
  rw [joinText, joinGroups, List.map_singleton, List.intercalate_singleton]

/-- The body of the loop, in terms of the groups. -/
theorem insertGroup_eq (host : Endian) (m_addr : SockaddrIn6) (inside : i < 8)
    (text : List UInt8) (used : Bool) :
    insertGroup host m_addr (text, used) i =
      if group m_addr i = 0 ∧ used = false then (text, used)
      else if i = 0 then (text ++ digitsText 16 (group m_addr i), used)
      else if group m_addr (i - 1) = 0 ∧ used = false then
        (text ++ 58 :: 58 :: digitsText 16 (group m_addr i), true)
      else (text ++ 58 :: digitsText 16 (group m_addr i), used) := by
  have before : i - 1 < 8 := Nat.lt_of_le_of_lt (Nat.sub_le i 1) inside
  have colon : bytes ":" = [58] := by decide
  simp only [insertGroup, toNat_addr host m_addr inside, addr_eq_zero host m_addr inside,
    addr_eq_zero host m_addr before, colon, Bool.not_eq_true]
  split
  · rfl
  · by_cases first : i = 0
    · simp [first]
    · rw [if_neg first]
      by_cases gap : group m_addr (i - 1) = 0 ∧ used = false
      · simp [first, gap]
      · have plain : ¬(i ≠ 0 ∧ group m_addr (i - 1) = 0 ∧ used = false) := fun both => gap both.2
        rw [if_neg gap, if_neg plain, if_pos first, List.append_assoc]
        rfl

/-- The body of the loop keeps what was written. -/
theorem insertGroup_written (host : Endian) (inside : i < 8) {os : List UInt8 × Bool}
    (written : Written ((List.range i).map (group m_addr)) os) :
    Written ((List.range (i + 1)).map (group m_addr)) (insertGroup host m_addr os i) := by
  rw [List.range_succ, List.map_append, List.map_singleton]
  generalize known : (List.range i).map (group m_addr) = before at written ⊢
  cases written with
  | pending left zeros nonzero =>
      rw [insertGroup_eq host m_addr inside]
      generalize group m_addr i = n
      by_cases zero : n = 0
      · rw [if_pos ⟨zero, rfl⟩, zero, List.append_assoc, ← List.replicate_succ']
        exact .pending left (zeros + 1) nonzero
      · rw [if_neg fun both => zero both.1]
        have alone := Written.pending [n] 0 (by simpa using Ne.symm zero)
        rcases i with _ | j
        · obtain ⟨rfl, empty⟩ := List.append_eq_nil_iff.mp known.symm
          rw [empty, if_pos rfl]
          rw [joinText_singleton] at alone
          exact alone
        · rw [List.range_succ, List.map_append, List.map_singleton] at known
          rw [if_neg (Nat.succ_ne_zero j), Nat.add_sub_cancel]
          rcases zeros with _ | zeros
          · rw [List.replicate_zero, List.append_nil] at known ⊢
            have some_ : left ≠ [] := by
              rintro rfl
              exact absurd known (List.append_ne_nil_of_right_ne_nil _ (List.cons_ne_nil _ _))
            have last : group m_addr j ≠ 0 := by
              intro last
              refine nonzero ?_
              rw [← known, last]
              exact List.mem_append_right _ (List.mem_singleton_self 0)
            have next := Written.pending (left ++ [n]) 0 (by
              rw [List.mem_append, not_or, List.mem_singleton]
              exact ⟨nonzero, Ne.symm zero⟩)
            rw [joinText_concat some_, List.replicate_zero, List.append_nil] at next
            rw [if_neg fun both => last both.1]
            exact next
          · rw [List.replicate_succ', ← List.append_assoc] at known
            have last : group m_addr j = 0 := by
              have same := List.append_inj_right' known rfl
              exact List.singleton_inj.mp same
            have next := Written.compressed left zeros [n] (List.cons_ne_nil _ _)
            rw [joinText_singleton, ← List.append_assoc] at next
            rw [if_pos ⟨last, rfl⟩]
            exact next
  | compressed left zeros right some_ =>
      rw [insertGroup_eq host m_addr inside]
      generalize group m_addr i = n
      have later : i ≠ 0 := by
        rintro rfl
        have empty := (List.append_eq_nil_iff.mp known.symm).2
        exact some_ (List.append_eq_nil_iff.mp empty).2
      have next := Written.compressed left zeros (right ++ [n])
        (List.append_ne_nil_of_left_ne_nil some_ _)
      rw [joinText_concat some_] at next
      rw [if_neg (by simp), if_neg later, if_neg (by simp)]
      simp only [List.append_assoc, List.cons_append] at next ⊢
      exact next

/-- What the loop has written in the end. -/
theorem insertGroups_written (host : Endian) (m_addr : SockaddrIn6) :
    ∀ count ≤ 8, Written ((List.range count).map (group m_addr))
      ((List.range count).foldl (insertGroup host m_addr) ([], false)) := by
  intro count
  induction count with
  | zero => exact fun _ => .pending [] 0 List.not_mem_nil
  | succ count inductionHypothesis =>
      intro within
      have step := insertGroup_written host within (inductionHypothesis (Nat.le_of_succ_le within))
      rw [List.range_succ] at step ⊢
      rw [List.foldl_append]
      exact step

end Loop

section Faithful

variable {m_addr other : SockaddrIn6}

theorem map_numeral (groups : List Nat) :
    (groups.map (digitsText 16)).map (numeral 16) = groups := by
  rw [List.map_map]
  exact List.map_id'' (fun n => Library.numeral_digitsText (by decide) (by decide) n) groups

theorem isGroup_of_mem {groups some_ : List Nat} (within : ∀ n ∈ groups, n < 16 ^ 4)
    (part : some_ ⊆ groups) : ∀ text ∈ some_.map (digitsText 16), IsGroup text := by
  intro text member
  obtain ⟨n, inside, rfl⟩ := List.mem_map.mp member
  exact Library.isGroup_digitsText (within n (part inside))

/-- What is written between the brackets. -/
theorem written_text {groups : List Nat} {os : List UInt8 × Bool} (written : Written groups os)
    (within : ∀ n ∈ groups, n < 16 ^ 4) (eight : groups.length = 8) {last : Nat}
    (isLast : groups.getLast? = some last) :
    AddressText (os.1 ++ if ¬os.2 ∧ last = 0 then bytes "::" else []) groups := by
  cases written with
  | pending left zeros nonzero =>
      rcases zeros with _ | zeros
      · rw [List.replicate_zero, List.append_nil] at within eight isLast ⊢
        have other : last ≠ 0 := by
          rintro rfl
          exact nonzero (List.mem_of_getLast? isLast)
        have text := AddressText.whole (left.map (digitsText 16))
          (isGroup_of_mem within (List.Subset.refl left)) (by rwa [List.length_map])
        rw [map_numeral] at text
        rw [if_neg fun both => other both.2, List.append_nil]
        exact text
      · have zero : last = 0 := by
          rw [List.replicate_succ', ← List.append_assoc, List.getLast?_concat] at isLast
          exact (Option.some.inj isLast).symm
        rw [List.length_append, List.length_replicate] at eight
        have text := AddressText.compressed (left.map (digitsText 16)) []
          (by rw [List.append_nil]; exact isGroup_of_mem within (List.subset_append_left _ _))
          (by rw [List.length_map, List.length_nil]; omega)
        rw [map_numeral, List.length_map, List.length_nil] at text
        have count : 8 - (left.length + 0) = zeros + 1 := by omega
        rw [count, List.map_nil, List.append_nil] at text
        rw [if_pos ⟨Bool.false_ne_true, zero⟩]
        exact text
  | compressed left zeros right some_ =>
      rw [List.length_append, List.length_append, List.length_replicate] at eight
      have parts : left ++ right ⊆ left ++ (List.replicate (zeros + 1) 0 ++ right) := by
        intro n member
        simp only [List.mem_append] at member ⊢
        tauto
      have text := AddressText.compressed (left.map (digitsText 16)) (right.map (digitsText 16))
        (by rw [← List.map_append]; exact isGroup_of_mem within parts)
        (by rw [List.length_map, List.length_map]; omega)
      rw [map_numeral, map_numeral, List.length_map, List.length_map] at text
      have count : 8 - (left.length + right.length) = zeros + 1 := by omega
      rw [count] at text
      rw [if_neg (by simp), List.append_nil]
      exact text

theorem groups_length (m_addr : SockaddrIn6) : (groups m_addr).length = 8 := by
  rw [groups, List.length_map, List.length_range]

/-- Addresses with the same groups have the same bytes. -/
theorem groups_injective (same : groups m_addr = groups other) :
    m_addr.sin6_addr = other.sin6_addr := by
  have pairs : ∀ i < 8, group m_addr i = group other i := by
    intro i inside
    exact List.map_inj_left.mp same i (List.mem_range.mpr inside)
  refine Vector.toList_inj.mp (List.ext_getElem ?_ fun k first second => ?_)
  · rw [Vector.length_toList, Vector.length_toList]
  · have inside := first
    rw [Vector.length_toList] at inside
    rw [← List.getD_eq_getElem _ 0 first, ← List.getD_eq_getElem _ 0 second]
    obtain ⟨i, side⟩ : ∃ i, k = 2 * i ∨ k = 2 * i + 1 := ⟨k / 2, by omega⟩
    have pair := pairs i (by omega)
    have low := (m_addr.sin6_addr.toList.getD (2 * i + 1) 0).toNat_lt
    have otherLow := (other.sin6_addr.toList.getD (2 * i + 1) 0).toNat_lt
    unfold group at pair
    rcases side with rfl | rfl
    · exact UInt8.toNat_inj.mp (by omega)
    · exact UInt8.toNat_inj.mp (by omega)

/-- What stands between the brackets, and behind them. -/
theorem insert_eq (host : Endian) (m_addr : SockaddrIn6) :
    ∃ text, AddressText text (groups m_addr) ∧ insert host m_addr =
      bytes "[" ++ text ++ bytes "]:" ++
        digitsText 10 (byteswapOnLittleEndian host m_addr.sin6_port).toNat := by
  have written := insertGroups_written host m_addr 8 (Nat.le_refl 8)
  have within : ∀ n ∈ groups m_addr, n < 16 ^ 4 := by
    intro n member
    obtain ⟨i, _, rfl⟩ := List.mem_map.mp member
    exact group_lt m_addr i
  have last : (groups m_addr).getLast? = some (group m_addr 7) := rfl
  refine ⟨_, written_text written within (groups_length m_addr) last, ?_⟩
  unfold insert
  simp only [addr_eq_zero host m_addr (show 7 < 8 by decide), List.append_assoc]

end Faithful

/-- Between the brackets stands a text of the address, which is read back, and behind them the
port; so no two addresses and ports have the same text. -/
theorem insert_faithful (host : Endian) (m_addr : SockaddrIn6) :
    (∃ text, insert host m_addr = bytes "[" ++ text ++ bytes "]:" ++
        digitsText 10 (byteswapOnLittleEndian host m_addr.sin6_port).toNat ∧
      93 ∉ text ∧ AddressText text (groups m_addr) ∧ readAddress text = some (groups m_addr)) ∧
    ∀ other, insert host other = insert host m_addr →
      other.sin6_addr = m_addr.sin6_addr ∧ other.sin6_port = m_addr.sin6_port := by
  have noBracket : ∀ {text groups}, AddressText text groups → 93 ∉ text := by
    intro text groups isText member
    rcases isText.bytes 93 member with colon | digit
    · exact absurd colon (by decide)
    · exact absurd digit (by decide)
  obtain ⟨text, isText, inserted⟩ := insert_eq host m_addr
  refine ⟨⟨text, inserted, noBracket isText, isText, isText.read⟩, fun other same => ?_⟩
  obtain ⟨otherText, isOther, otherInserted⟩ := insert_eq host other
  rw [inserted, otherInserted] at same
  have bracket : bytes "]:" = [93, 58] := by decide
  have behind : ∀ n, 93 ∉ 58 :: digitsText 10 n := by
    intro n member
    rcases List.mem_cons.mp member with colon | digit
    · exact absurd colon (by decide)
    · have digits : (digitsText 10 n).all (Library.isDigit 10) = true :=
        Library.digitsText_isDigit (by decide) (by decide) n
      exact absurd (List.all_eq_true.mp digits 93 digit) (by decide)
  simp only [bracket, List.append_assoc, List.append_cancel_left_eq, List.cons_append,
    List.nil_append] at same
  obtain ⟨rfl, _, ports⟩ :=
    (List.append_cons_inj_of_notMem (noBracket isOther) (behind _)).mp same
  have groups := Option.some.inj (isOther.read.symm.trans isText.read)
  refine ⟨groups_injective groups, ?_⟩
  have numbers := congrArg (numeral 10) (List.cons.inj ports).2
  rw [Library.numeral_digitsText (by decide) (by decide),
    Library.numeral_digitsText (by decide) (by decide)] at numbers
  have ports := congrArg (byteswapOnLittleEndian host) (UInt16.toNat_inj.mp numbers)
  rwa [byteswapOnLittleEndian_twice, byteswapOnLittleEndian_twice] at ports

example : insert .little ⟨AF_INET6, 0x5000, #v[0, 0, 0, 0, 0, 0, 0, 0, 0, 0, 0, 0, 0, 0, 0, 1]⟩ =
    bytes "[::1]:80" := by decide

end Sylar.Address.IPv6Address
