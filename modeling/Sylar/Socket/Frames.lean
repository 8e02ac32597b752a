import Sylar.Socket.Model

/-!
# What a call leaves alone

A call of a member changes the object it is called for, and no other one.
-/

namespace Sylar.Sockets

variable {I : Type} [DecidableEq I] {s next : Sockets I} {i j k : I} {fd : Nat}
  {result : Option Nat} {family : Nat} {answer : Bool}

theorem setSocket_self (s : Sockets I) (i : I) (place : Option Socket) :
    (s.setSocket i place).sockets i = place := Function.update_self ..

theorem setSocket_of_ne (s : Sockets I) (place : Option Socket) (other : j ≠ i) :
    (s.setSocket i place).sockets j = s.sockets j := Function.update_of_ne other ..

omit [DecidableEq I] in
/-- To open a descriptor touches no socket. -/
theorem openFd_sockets (opens : s.openFd fd = some next) : next.sockets = s.sockets := by
  obtain ⟨-, ⟨⟩⟩ := Option.ite_none_left_eq_some.mp opens
  rfl

omit [DecidableEq I] in
/-- To close a descriptor touches no socket. -/
theorem closeFd_sockets (s : Sockets I) (fd : Nat) : (s.closeFd fd).sockets = s.sockets := by
  unfold closeFd
  split <;> rfl

/-- A socket is made at a place that is free. -/
theorem construct_self (taken : s.construct i family = some next) :
    s.sockets i = none ∧ next.sockets i = some ⟨family, none, false⟩ := by
  obtain ⟨new, ⟨⟩⟩ := Option.ite_none_left_eq_some.mp taken
  exact ⟨Option.not_isSome_iff_eq_none.mp new, setSocket_self ..⟩

/-- The constructor touches its own place alone. -/
theorem construct_of_ne (taken : s.construct i family = some next) (other : j ≠ i) :
    next.sockets j = s.sockets j := by
  obtain ⟨-, ⟨⟩⟩ := Option.ite_none_left_eq_some.mp taken
  exact setSocket_of_ne s _ other

/-- `newSock` touches its own socket alone. -/
theorem newSock_of_ne (taken : s.newSock i result = some next) (other : j ≠ i) :
    next.sockets j = s.sockets j := by
  simp only [newSock, Bind.bind, Option.bind_eq_some_iff] at taken
  obtain ⟨socket, found, taken⟩ := taken
  cases result with
  | none =>
      cases taken
      exact setSocket_of_ne s _ other
  | some fd =>
      obtain ⟨opened, opens, ⟨⟩⟩ := Option.bind_eq_some_iff.mp taken
      rw [setSocket_of_ne opened _ other, openFd_sockets opens]

/-- A socket that is made sure of is the only one touched. -/
theorem ensureSock_of_ne (taken : s.ensureSock i result = some next) (other : j ≠ i) :
    next.sockets j = s.sockets j := by
  simp only [ensureSock, Bind.bind, Option.bind_eq_some_iff] at taken
  obtain ⟨socket, found, taken⟩ := taken
  split at taken
  · cases taken
    rfl
  · exact newSock_of_ne taken other

/-- `close` leaves its socket without a descriptor. -/
theorem close_self (taken : s.close i = some next) :
    s.sockets i ≠ none ∧ next.sockets i ≠ none ∧ next.descriptor i = none := by
  simp only [close, Bind.bind, Option.bind_eq_some_iff] at taken
  obtain ⟨socket, found, taken⟩ := taken
  refine ⟨found ▸ Option.some_ne_none socket, ?_⟩
  split at taken
  · rename_i holds
    cases taken
    rw [descriptor, setSocket_self]
    exact ⟨Option.some_ne_none _, holds⟩
  · cases taken
    rw [descriptor, setSocket_self]
    exact ⟨Option.some_ne_none _, rfl⟩

/-- `close` touches its own socket alone. -/
theorem close_of_ne (taken : s.close i = some next) (other : j ≠ i) :
    next.sockets j = s.sockets j := by
  simp only [close, Bind.bind, Option.bind_eq_some_iff] at taken
  obtain ⟨socket, found, taken⟩ := taken
  split at taken
  · cases taken
    exact setSocket_of_ne s _ other
  · cases taken
    rw [setSocket_of_ne _ _ other, closeFd_sockets]

/-- An object can be closed. -/
theorem exists_close (alive : s.sockets i ≠ none) : ∃ next, s.close i = some next := by
  obtain ⟨socket, found⟩ := Option.ne_none_iff_exists'.mp alive
  rcases holds : socket.sock with - | fd
  · exact ⟨_, by rw [close, found, Option.bind_eq_bind, Option.bind_some, holds]⟩
  · exact ⟨_, by rw [close, found, Option.bind_eq_bind, Option.bind_some, holds]⟩

/-- A socket that is destroyed is gone. -/
theorem destroy_self (taken : s.destroy i = some next) : next.sockets i = none := by
  obtain ⟨closed, closes, ⟨⟩⟩ := Option.bind_eq_some_iff.mp taken
  exact setSocket_self ..

/-- The destructor touches its own socket alone. -/
theorem destroy_of_ne (taken : s.destroy i = some next) (other : j ≠ i) :
    next.sockets j = s.sockets j := by
  obtain ⟨closed, closes, ⟨⟩⟩ := Option.bind_eq_some_iff.mp taken
  rw [setSocket_of_ne closed _ other, close_of_ne closes other]

omit [DecidableEq I] in
/-- The probe of a path touches no socket of the model. -/
theorem probe_sockets {attempt : Probe} (taken : s.probe attempt = some (answer, next)) :
    next.sockets = s.sockets := by
  rw [probe] at taken
  split at taken
  · cases taken
    rfl
  · obtain ⟨opened, opens, ⟨⟩⟩ := Option.map_eq_some_iff.mp taken
    rw [closeFd_sockets, openFd_sockets opens]

/-- `bind` touches its own socket alone. -/
theorem bind_of_ne {unix : Option Probe} {bound : Bool}
    (taken : s.bind i family result unix bound = some (answer, next)) (other : j ≠ i) :
    next.sockets j = s.sockets j := by
  simp only [bind, Bind.bind, Option.bind_eq_some_iff] at taken
  obtain ⟨ready, ensured, socket, found, taken⟩ := taken
  rw [← ensureSock_of_ne ensured other]
  split at taken
  · cases taken
    rfl
  · split at taken
    · cases taken
      rfl
    · obtain ⟨⟨used, probed⟩, probes, ⟨⟩⟩ := Option.bind_eq_some_iff.mp taken
      rw [probe_sockets probes]

/-- The object is still there, and it has a descriptor when it was bound. -/
theorem bind_self {unix : Option Probe} {bound : Bool}
    (taken : s.bind i family result unix bound = some (answer, next)) :
    next.sockets i ≠ none ∧ (answer = true → next.descriptor i ≠ none) := by
  simp only [bind, Bind.bind, Option.bind_eq_some_iff] at taken
  obtain ⟨ready, ensured, socket, found, taken⟩ := taken
  have there : ready.sockets i ≠ none := found ▸ Option.some_ne_none socket
  split at taken
  · cases taken
    exact ⟨there, nofun⟩
  · rename_i valid
    have some_ : ready.descriptor i ≠ none := by
      simp only [Bool.or_eq_true, not_or, Option.isNone_iff_eq_none] at valid
      rw [descriptor, found]
      exact valid.1
    split at taken
    · cases taken
      exact ⟨there, fun _ => some_⟩
    · obtain ⟨⟨used, probed⟩, probes, ⟨⟩⟩ := Option.bind_eq_some_iff.mp taken
      have same := probe_sockets probes
      rw [descriptor, same]
      exact ⟨there, fun _ => some_⟩

/-- `accept` touches the new socket alone. -/
theorem accept_of_ne {newsock : Option Nat} {registered : Bool}
    (taken : s.accept i j newsock registered = some (answer, next)) (other : k ≠ j) :
    next.sockets k = s.sockets k := by
  simp only [accept, Bind.bind, Option.bind_eq_some_iff, Option.ite_none_left_eq_some] at taken
  obtain ⟨socket, found, new, taken⟩ := taken
  split at taken
  · cases taken
    rfl
  · obtain ⟨opened, opens, taken⟩ := Option.bind_eq_some_iff.mp taken
    rw [← openFd_sockets opens]
    split at taken
    · cases taken
      exact setSocket_of_ne opened _ other
    · cases taken
      rfl

/-- The new object is there when it is returned. -/
theorem accept_self {newsock : Option Nat} {registered : Bool}
    (taken : s.accept i j newsock registered = some (answer, next)) :
    s.sockets j = none ∧ (next.sockets j ≠ none ↔ answer = true) := by
  simp only [accept, Bind.bind, Option.bind_eq_some_iff, Option.ite_none_left_eq_some] at taken
  obtain ⟨socket, found, new, taken⟩ := taken
  rw [Bool.or_eq_true, not_or, Option.not_isSome_iff_eq_none] at new
  have nothing : s.sockets j = none := new.1
  refine ⟨nothing, ?_⟩
  split at taken
  · cases taken
    exact ⟨fun there => absurd nothing there, nofun⟩
  · obtain ⟨opened, opens, taken⟩ := Option.bind_eq_some_iff.mp taken
    split at taken
    · cases taken
      rw [setSocket_self]
      exact ⟨fun _ => rfl, fun _ => Option.some_ne_none _⟩
    · cases taken
      rw [openFd_sockets opens]
      exact ⟨fun there => absurd nothing there, nofun⟩

omit [DecidableEq I] in
theorem descriptor_congr (same : next.sockets i = s.sockets i) :
    next.descriptor i = s.descriptor i := congrArg (Option.bind · Socket.sock) same

end Sylar.Sockets
