import Sylar.Http.Request

/-!
# Hosts and services

`Address::Lookup` of `address.cpp`: how a host string becomes the node and the
service of the call of `getaddrinfo`, which takes both up to their first zero
byte. A pointer into the host is its offset.
-/

namespace Sylar.Address

open Http (cString)

/-- `memchr` from an offset to the end. -/
def memchr (text : List UInt8) (offset : Nat) (c : UInt8) : Option Nat :=
  ((text.drop offset).findIdx? (· == c)).map (offset + ·)

/-- The arguments of `getaddrinfo`, with the members of `hints` that are not 0. -/
structure Query where
  node : List UInt8
  service : Option (List UInt8)
  ai_family : Int32
  ai_socktype : Int32
  ai_protocol : Int32
  deriving DecidableEq

/-- The attempt at `[node]:service`. -/
def splitBrackets (host : List UInt8) : List UInt8 × Option Nat :=
  if host.head? = some 91 then
    match memchr host 1 93 with
    | none => ([], none)
    | some endipv6 =>
        ((host.drop 1).take (endipv6 - 1),
          if host.getD (endipv6 + 1) 0 = 58 then some (endipv6 + 2) else none)
  else ([], none)

/-- The attempt at `node:service`, which is made while there is no node. -/
def splitColon (host : List UInt8) : List UInt8 × Option Nat :=
  match memchr host 0 58 with
  | none => ([], none)
  | some service =>
      match memchr host (service + 1) 58 with
      | none => (host.take service, some (service + 1))
      | some _ => ([], some service)

/-- What `Lookup` passes to `getaddrinfo`. -/
def query (host : List UInt8) (family type protocol : Int32) : Query :=
  let brackets := splitBrackets host
  let split := if brackets.1.isEmpty then splitColon host else brackets
  { node := cString (if split.1.isEmpty then host else split.1)
    service := split.2.map fun offset => cString (host.drop offset)
    ai_family := family, ai_socktype := type, ai_protocol := protocol }

/-- `Lookup`. `create` is `Create`; an error is what `getaddrinfo` returns. -/
def lookup {Sockaddr Address : Type} (getaddrinfo : Query → Except Int32 (List Sockaddr))
    (create : Sockaddr → Address) (result : List Address) (host : List UInt8)
    (family type protocol : Int32) : Bool × List Address :=
  match getaddrinfo (query host family type protocol) with
  | .error _ => (false, result)
  | .ok results =>
      let result := result ++ results.map create
      (!result.isEmpty, result)

/-- `[h]:p`. -/
def BracketPort (host h p : List UInt8) : Prop :=
  h ≠ [] ∧ 93 ∉ h ∧ host = 91 :: h ++ 93 :: 58 :: p

/-- `[h]`. -/
def Bracket (host h : List UInt8) : Prop := h ≠ [] ∧ 93 ∉ h ∧ host = 91 :: h ++ [93]

/-- `h:p`. -/
def HostPort (host h p : List UInt8) : Prop :=
  h ≠ [] ∧ h.head? ≠ some 91 ∧ 58 ∉ h ∧ 58 ∉ p ∧ host = h ++ 58 :: p

/-- The node and the service that a host string means. -/
inductive Splits (host : List UInt8) : List UInt8 → Option (List UInt8) → Prop where
  | bracketPort {h p} (form : BracketPort host h p) : Splits host h (some p)
  | bracket {h} (form : Bracket host h) : Splits host h none
  | hostPort {h p} (form : HostPort host h p) : Splits host h (some p)
  | whole (noBracketPort : ∀ h p, ¬BracketPort host h p) (noBracket : ∀ h, ¬Bracket host h)
      (noHostPort : ∀ h p, ¬HostPort host h p) : Splits host host none

section Memchr

variable {c : UInt8} {text before : List UInt8}

theorem findIdx?_append (outside : c ∉ before) (behind : List UInt8) :
    (before ++ c :: behind).findIdx? (· == c) = some before.length := by
  induction before with
  | nil => simp [List.findIdx?_cons]
  | cons byte before inductionHypothesis =>
      rw [List.mem_cons, not_or] at outside
      have other : (byte == c) = false := beq_false_of_ne (Ne.symm outside.1)
      rw [List.cons_append, List.findIdx?_cons, other, inductionHypothesis outside.2]
      rfl

theorem memchr_append (outside : c ∉ before) (front behind : List UInt8) :
    memchr (front ++ (before ++ c :: behind)) front.length c =
      some (front.length + before.length) := by
  rw [memchr, List.drop_left, findIdx?_append outside]
  rfl

theorem memchr_none (front : List UInt8) (outside : c ∉ text) :
    memchr (front ++ text) front.length c = none := by
  have every : ∀ byte ∈ text, (byte == c) = false := by
    intro byte member
    apply beq_false_of_ne
    rintro rfl
    exact outside member
  rw [memchr, List.drop_left, List.findIdx?_eq_none_iff.mpr every]
  rfl

end Memchr

section Attempts

variable {host h : List UInt8}

theorem splitBrackets_eq (closes : 93 ∉ h) (x : List UInt8) :
    splitBrackets (91 :: h ++ 93 :: x) =
      (h, if x.headD 0 = 58 then some (h.length + 3) else none) := by
  have found : memchr (91 :: h ++ 93 :: x) 1 93 = some (1 + h.length) :=
    memchr_append closes [91] x
  have next : (91 :: h ++ 93 :: x).getD (1 + h.length + 1) 0 = x.headD 0 := by
    rw [show 1 + h.length + 1 = (91 :: h).length + 1 by simp only [List.length_cons]; omega]
    cases x <;> simp [List.getD_eq_getElem?_getD]
  have node : ((91 :: h ++ 93 :: x).drop 1).take (1 + h.length - 1) = h := by
    rw [Nat.add_sub_cancel_left]
    exact List.take_left
  have first : (91 :: h ++ 93 :: x).head? = some 91 := rfl
  simp only [splitBrackets, if_pos first, found, next, node]
  rw [show 1 + h.length + 2 = h.length + 3 by omega]

/-- A host that starts with `[h]`. -/
def Bracketed (host h x : List UInt8) : Prop := h ≠ [] ∧ 93 ∉ h ∧ host = 91 :: h ++ 93 :: x

theorem splitBrackets_unbracketed (unbracketed : ∀ h x, ¬Bracketed host h x) :
    (splitBrackets host).1 = [] := by
  by_cases first : host.head? = some 91
  · obtain ⟨rest, rfl⟩ := List.head?_eq_some_iff.mp first
    by_cases closes : 93 ∈ rest
    · obtain ⟨h, x, rfl, outside⟩ := List.eq_append_cons_of_mem closes
      rw [← List.cons_append, splitBrackets_eq outside]
      by_contra nonempty
      exact unbracketed h x ⟨nonempty, outside, rfl⟩
    · have nowhere : memchr (91 :: rest) 1 93 = none := memchr_none [91] closes
      simp only [splitBrackets, nowhere]
      split <;> rfl
  · rw [splitBrackets, if_neg first]

theorem splitColon_none (nowhere : 58 ∉ host) : splitColon host = ([], none) := by
  have search : memchr host 0 58 = none := memchr_none [] nowhere
  rw [splitColon, search]

theorem splitColon_one {p : List UInt8} (before : 58 ∉ h) (behind : 58 ∉ p) :
    splitColon (h ++ 58 :: p) = (h, some (h.length + 1)) := by
  have search : memchr (h ++ 58 :: p) 0 58 = some (0 + h.length) := memchr_append before [] p
  have again : memchr (h ++ 58 :: p) (h.length + 1) 58 = none := by
    have whole := memchr_none (h ++ [58]) behind
    rwa [List.append_assoc, List.length_append] at whole
  simp only [splitColon, search, Nat.zero_add, again, List.take_left]

/-- The second colon is found, and the service stays at the first. -/
theorem splitColon_more {p : List UInt8} (before : 58 ∉ h) (behind : 58 ∈ p) :
    splitColon (h ++ 58 :: p) = ([], some h.length) := by
  obtain ⟨middle, rest, rfl, outside⟩ := List.eq_append_cons_of_mem behind
  have search : memchr (h ++ 58 :: (middle ++ 58 :: rest)) 0 58 = some (0 + h.length) :=
    memchr_append before [] _
  have again : memchr (h ++ 58 :: (middle ++ 58 :: rest)) (h.length + 1) 58 =
      some (h.length + 1 + middle.length) := by
    have whole := memchr_append outside (h ++ [58]) rest
    rwa [List.append_assoc, List.length_append] at whole
  simp only [splitColon, search, Nat.zero_add, again]

end Attempts

section Queries

variable {host h : List UInt8} (family type protocol : Int32)

theorem query_bracketPort {p : List UInt8} (form : BracketPort host h p) :
    query host family type protocol =
      { node := cString h, service := some (cString p)
        ai_family := family, ai_socktype := type, ai_protocol := protocol } := by
  obtain ⟨nonempty, closes, rfl⟩ := form
  have service : (91 :: h ++ 93 :: 58 :: p).drop (h.length + 3) = p := by
    rw [show 91 :: h ++ 93 :: 58 :: p = (91 :: h ++ [93, 58]) ++ p by simp]
    exact List.drop_left' (by simp)
  have node : h.isEmpty = false := List.isEmpty_eq_false_iff.mpr nonempty
  have port : (58 :: p).headD 0 = (58 : UInt8) := rfl
  have brackets := splitBrackets_eq closes (58 :: p)
  rw [if_pos port] at brackets
  simp only [query, brackets, node, Bool.false_eq_true, if_false, Option.map_some, service]

/-- What follows the bracket and is no service is dropped. -/
theorem query_bracketed {x : List UInt8} (form : Bracketed host h x) (noPort : x.headD 0 ≠ 58) :
    query host family type protocol =
      { node := cString h, service := none
        ai_family := family, ai_socktype := type, ai_protocol := protocol } := by
  obtain ⟨nonempty, closes, rfl⟩ := form
  have node : h.isEmpty = false := List.isEmpty_eq_false_iff.mpr nonempty
  have brackets := splitBrackets_eq closes x
  rw [if_neg noPort] at brackets
  simp only [query, brackets, node, Bool.false_eq_true, if_false, Option.map_none]

theorem query_unbracketed (unbracketed : ∀ h x, ¬Bracketed host h x) :
    query host family type protocol =
      { node := cString (if (splitColon host).1.isEmpty then host else (splitColon host).1)
        service := (splitColon host).2.map fun offset => cString (host.drop offset)
        ai_family := family, ai_socktype := type, ai_protocol := protocol } := by
  have node := splitBrackets_unbracketed unbracketed
  simp only [query, node, List.isEmpty_nil, if_true]

theorem unbracketed_of_head (first : host.head? ≠ some 91) (h x : List UInt8) :
    ¬Bracketed host h x := by
  rintro ⟨_, _, rfl⟩
  exact first rfl

theorem query_hostPort {p : List UInt8} (form : HostPort host h p) :
    query host family type protocol =
      { node := cString h, service := some (cString p)
        ai_family := family, ai_socktype := type, ai_protocol := protocol } := by
  obtain ⟨nonempty, first, before, behind, rfl⟩ := form
  have unbracketed : (h ++ 58 :: p).head? ≠ some 91 := by
    cases h with
    | nil => exact absurd rfl nonempty
    | cons byte h => exact first
  have node : h.isEmpty = false := List.isEmpty_eq_false_iff.mpr nonempty
  have service : (h ++ 58 :: p).drop (h.length + 1) = p := by
    rw [List.append_cons]
    exact List.drop_left' (by simp)
  rw [query_unbracketed _ _ _ (unbracketed_of_head unbracketed), splitColon_one before behind]
  simp only [node, Bool.false_eq_true, if_false, Option.map_some, service]

theorem query_noColon (unbracketed : ∀ h x, ¬Bracketed host h x) (nowhere : 58 ∉ host) :
    query host family type protocol =
      { node := cString host, service := none
        ai_family := family, ai_socktype := type, ai_protocol := protocol } := by
  rw [query_unbracketed _ _ _ unbracketed, splitColon_none nowhere]
  rfl

theorem splitColon_service {host : List UInt8} (somewhere : 58 ∈ host) :
    (splitColon host).2.isSome := by
  obtain ⟨h, p, rfl, before⟩ := List.eq_append_cons_of_mem somewhere
  by_cases behind : 58 ∈ p
  · rw [splitColon_more before behind]
    rfl
  · rw [splitColon_one before behind]
    rfl

/-- The node keeps the brackets' inside only, which is not the host. -/
theorem cString_ne_of_bracketed {x : List UInt8} (form : Bracketed host h x) :
    cString h ≠ cString host := by
  obtain ⟨_, _, rfl⟩ := form
  intro same
  have longer : (cString h).length ≤ (cString (h ++ 93 :: x)).length := by
    rw [cString, cString, List.takeWhile_append]
    split
    · rename_i whole
      rw [List.length_append, whole]
      exact Nat.le_add_right _ _
    · exact Nat.le_refl _
  have first : cString (91 :: h ++ 93 :: x) = 91 :: cString (h ++ 93 :: x) := rfl
  have lengths := congrArg List.length same
  rw [first, List.length_cons] at lengths
  omega

/-- `getaddrinfo` is called with what the host string means. -/
def Understood (host : List UInt8) (family type protocol : Int32) : Prop :=
  ∀ node service, Splits host node service →
    query host family type protocol =
      { node := cString node, service := service.map cString
        ai_family := family, ai_socktype := type, ai_protocol := protocol }

/-- Where a host string is understood: in the three forms, and where there is neither
a colon nor a node in brackets. -/
theorem understood_iff (host : List UInt8) (family type protocol : Int32) :
    Understood host family type protocol ↔
      (∃ h p, BracketPort host h p) ∨ (∃ h, Bracket host h) ∨ (∃ h p, HostPort host h p) ∨
        58 ∉ host ∧ ∀ h x, ¬Bracketed host h x := by
  constructor
  · intro understood
    by_contra none
    simp only [not_or, not_exists] at none
    obtain ⟨noBracketPort, noBracket, noHostPort, other⟩ := none
    have whole := understood host none (.whole noBracketPort noBracket noHostPort)
    by_cases bracketed : ∃ h x, Bracketed host h x
    · obtain ⟨h, x, form⟩ := bracketed
      by_cases port : x.headD 0 = 58
      · cases x with
        | nil => exact absurd port (by decide)
        | cons byte p =>
            obtain rfl : byte = 58 := port
            exact noBracketPort h p form
      · rw [query_bracketed _ _ _ form port] at whole
        exact cString_ne_of_bracketed form (congrArg Query.node whole)
    · have unbracketed : ∀ h x, ¬Bracketed host h x := fun h x form => bracketed ⟨h, x, form⟩
      have somewhere : 58 ∈ host := by
        by_contra nowhere
        exact other ⟨nowhere, unbracketed⟩
      obtain ⟨offset, stays⟩ := Option.isSome_iff_exists.mp (splitColon_service somewhere)
      rw [query_unbracketed _ _ _ unbracketed, stays] at whole
      exact absurd (congrArg Query.service whole) (Option.some_ne_none _)
  · intro form node service splits
    cases splits with
    | bracketPort form => exact query_bracketPort _ _ _ form
    | bracket form =>
        exact query_bracketed _ _ _ (x := []) form (by decide)
    | hostPort form => exact query_hostPort _ _ _ form
    | whole noBracketPort noBracket noHostPort =>
        rcases form with ⟨h, p, form⟩ | ⟨h, form⟩ | ⟨h, p, form⟩ | ⟨nowhere, unbracketed⟩
        · exact absurd form (noBracketPort h p)
        · exact absurd form (noBracket h)
        · exact absurd form (noHostPort h p)
        · exact query_noColon _ _ _ unbracketed nowhere

end Queries

/-- `::1`: the second colon leaves the whole host as the node, with a service that
starts at the first. -/
theorem service_left_behind :
    ¬∀ host family type protocol, Understood host family type protocol := by
  intro understood
  have literal := understood [58, 58, 49] 0 0 0 [58, 58, 49] none (.whole ?_ ?_ ?_)
  · exact absurd literal (by decide)
  · rintro h p ⟨_, _, form⟩
    exact absurd (congrArg List.head? form) (by simp)
  · rintro h ⟨_, _, form⟩
    exact absurd (congrArg List.head? form) (by simp)
  · rintro h p ⟨nonempty, _, before, _, form⟩
    cases h with
    | nil => exact nonempty rfl
    | cons byte h =>
        obtain rfl : 58 = byte := congrArg (·.headD 0) form
        exact before List.mem_cons_self

end Sylar.Address
