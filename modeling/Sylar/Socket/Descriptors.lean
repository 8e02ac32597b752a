import Mathlib.Data.Finset.Basic
import Sylar.Library.Ownership
import Sylar.Socket.Frames

/-!
# No descriptor is lost

Whatever is called on whatever sockets, each descriptor that a socket opened is in one object, which
closes it once, unless `accept` got it and did not want it.
-/

namespace Sylar.Sockets

open Library

variable {I : Type} [DecidableEq I] {s next : Sockets I} {i j : I} {dropped : List Nat} {fd : Nat}
  {place : Option Socket} {socket : Socket}

/-- The open descriptors have one owner or were dropped, and no call of `::close` was wrong. -/
structure Accounted (dropped : List Nat) (s : Sockets I) : Prop where
  owned : Owned s.descriptor s.opened dropped
  closes : s.badCloses = 0

/-- A new place changes one descriptor. -/
theorem descriptor_setSocket (s : Sockets I) (i : I) (place : Option Socket) :
    (s.setSocket i place).descriptor = Function.update s.descriptor i (place.bind Socket.sock) := by
  ext j
  by_cases same : j = i
  · subst same
    simp only [descriptor, setSocket, Function.update_self]
  · simp only [descriptor, setSocket, Function.update_of_ne same]

omit [DecidableEq I] in
/-- The descriptor of a socket that exists. -/
theorem descriptor_eq (found : s.sockets i = some socket) : s.descriptor i = socket.sock := by
  rw [descriptor, found]
  rfl

namespace Accounted

/-- An object changes, and its descriptor does not. -/
theorem keep (accounted : s.Accounted dropped) (same : place.bind Socket.sock = s.descriptor i) :
    (s.setSocket i place).Accounted dropped where
  owned := by
    rw [descriptor_setSocket, same, Function.update_eq_self]
    exact accounted.owned
  closes := accounted.closes

/-- A new descriptor is put in an object that has none. -/
theorem take (accounted : s.Accounted dropped) (opens : s.openFd fd = some next)
    (empty : s.descriptor i = none) (taken : place.bind Socket.sock = some fd) :
    (next.setSocket i place).Accounted dropped := by
  obtain ⟨new, ⟨⟩⟩ := Option.ite_none_left_eq_some.mp opens
  refine ⟨?_, accounted.closes⟩
  rw [descriptor_setSocket, taken]
  exact accounted.owned.take empty new

/-- An object gives its descriptor back. -/
theorem give (accounted : s.Accounted dropped) (holds : s.descriptor i = some fd)
    (given : place.bind Socket.sock = none) :
    ((s.closeFd fd).setSocket i place).Accounted dropped := by
  have inside : fd ∈ s.opened := (accounted.owned.held_open holds).1
  refine ⟨?_, ?_⟩
  · rw [descriptor_setSocket, given, closeFd, if_pos inside]
    exact accounted.owned.give holds
  · rw [closeFd, if_pos inside]
    exact accounted.closes

/-- A new socket has no descriptor. -/
theorem construct {family : Nat} (accounted : s.Accounted dropped)
    (taken : s.construct i family = some next) : next.Accounted dropped := by
  obtain ⟨new, ⟨⟩⟩ := Option.ite_none_left_eq_some.mp taken
  refine accounted.keep ?_
  rw [descriptor, Option.not_isSome_iff_eq_none.mp new]
  rfl

/-- `newSock` is called for objects without a descriptor. -/
theorem newSock {result : Option Nat} (accounted : s.Accounted dropped)
    (empty : s.descriptor i = none) (taken : s.newSock i result = some next) :
    next.Accounted dropped := by
  simp only [Sockets.newSock, Bind.bind, Option.bind_eq_some_iff] at taken
  obtain ⟨socket, found, taken⟩ := taken
  cases result with
  | none =>
      cases taken
      exact accounted.keep empty.symm
  | some fd =>
      obtain ⟨opened, opens, ⟨⟩⟩ := Option.bind_eq_some_iff.mp taken
      exact accounted.take opens empty rfl

/-- `newSock` on a socket without a descriptor opens one for it. -/
theorem ensureSock {result : Option Nat} (accounted : s.Accounted dropped)
    (taken : s.ensureSock i result = some next) : next.Accounted dropped := by
  simp only [Sockets.ensureSock, Bind.bind, Option.bind_eq_some_iff] at taken
  obtain ⟨socket, found, taken⟩ := taken
  split at taken
  · cases taken
    exact accounted
  · rename_i invalid
    refine accounted.newSock ?_ taken
    rw [descriptor_eq found, Option.not_isSome_iff_eq_none.mp invalid]

/-- `close` returns the descriptor that the socket had. -/
theorem close (accounted : s.Accounted dropped) (taken : s.close i = some next) :
    next.Accounted dropped := by
  simp only [Sockets.close, Bind.bind, Option.bind_eq_some_iff] at taken
  obtain ⟨socket, found, taken⟩ := taken
  rcases holds : socket.sock with - | fd
  · rw [holds] at taken
    cases taken
    have empty : s.descriptor i = none := (descriptor_eq found).trans holds
    exact accounted.keep empty.symm
  · rw [holds] at taken
    cases taken
    exact accounted.give ((descriptor_eq found).trans holds) rfl

/-- The destructor closes the socket. -/
theorem destroy (accounted : s.Accounted dropped) (taken : s.destroy i = some next) :
    next.Accounted dropped := by
  obtain ⟨closed, closes, ⟨⟩⟩ := Option.bind_eq_some_iff.mp taken
  exact (accounted.close closes).keep (close_self closes).2.2.symm

/-- `connect` opens at most the descriptor of its socket. -/
theorem connect {family : Nat} {result : Option Nat} {connected answer : Bool}
    (accounted : s.Accounted dropped)
    (taken : s.connect i family result connected = some (answer, next)) :
    next.Accounted dropped := by
  simp only [Sockets.connect, Bind.bind, Option.bind_eq_some_iff] at taken
  obtain ⟨ready, ensured, socket, found, taken⟩ := taken
  have accounted := accounted.ensureSock ensured
  split at taken
  · cases taken
    exact accounted
  · split at taken
    · cases taken
      exact accounted.keep (descriptor_eq found).symm
    · obtain ⟨closed, closes, ⟨⟩⟩ := Option.bind_eq_some_iff.mp taken
      exact accounted.close closes

omit [DecidableEq I] in
/-- The probe leaves nothing behind. -/
theorem probe {attempt : Probe} {answer : Bool} (accounted : s.Accounted dropped)
    (taken : s.probe attempt = some (answer, next)) : next.Accounted dropped := by
  rw [Sockets.probe] at taken
  split at taken
  · cases taken
    exact accounted
  · obtain ⟨opened, opens, ⟨⟩⟩ := Option.map_eq_some_iff.mp taken
    obtain ⟨new, ⟨⟩⟩ := Option.ite_none_left_eq_some.mp opens
    rw [closeFd, if_pos (Finset.mem_insert_self _ _)]
    refine ⟨?_, accounted.closes⟩
    rw [Finset.erase_insert new]
    exact accounted.owned

/-- `bind` opens at most the descriptor of its socket. -/
theorem bind {family : Nat} {result : Option Nat} {unix : Option Probe} {bound answer : Bool}
    (accounted : s.Accounted dropped)
    (taken : s.bind i family result unix bound = some (answer, next)) : next.Accounted dropped := by
  simp only [Sockets.bind, Bind.bind, Option.bind_eq_some_iff] at taken
  obtain ⟨ready, ensured, socket, found, taken⟩ := taken
  have accounted := accounted.ensureSock ensured
  split at taken
  · cases taken
    exact accounted
  · split at taken
    · cases taken
      exact accounted
    · obtain ⟨⟨used, probed⟩, probes, ⟨⟩⟩ := Option.bind_eq_some_iff.mp taken
      exact accounted.probe probes

/-- `accept` gives the new descriptor to a socket, or drops it. -/
theorem accept {newsock : Option Nat} {registered answer : Bool} (accounted : s.Accounted dropped)
    (taken : s.accept i j newsock registered = some (answer, next)) :
    next.Accounted ((Action.accept i j newsock registered).dropped.toList ++ dropped) := by
  simp only [Sockets.accept, Bind.bind, Option.bind_eq_some_iff,
    Option.ite_none_left_eq_some] at taken
  obtain ⟨socket, found, new, taken⟩ := taken
  rw [Bool.or_eq_true, not_or, Option.not_isSome_iff_eq_none] at new
  cases newsock with
  | none =>
      cases taken
      cases registered <;> exact accounted
  | some fd =>
      obtain ⟨opened, opens, taken⟩ := Option.bind_eq_some_iff.mp taken
      cases registered with
      | true =>
          cases taken
          refine accounted.take opens ?_ rfl
          rw [descriptor, new.1]
          rfl
      | false =>
          cases taken
          obtain ⟨fresh, ⟨⟩⟩ := Option.ite_none_left_eq_some.mp opens
          exact ⟨accounted.owned.drop fresh, accounted.closes⟩

/-- `CreateUDP` opens a descriptor at once. -/
theorem createUDP {family : Nat} {result : Option Nat} (accounted : s.Accounted dropped)
    (taken : s.createUDP i family result = some next) : next.Accounted dropped := by
  simp only [Sockets.createUDP, Bind.bind, Option.bind_eq_some_iff] at taken
  obtain ⟨made, constructs, created, news, socket, found, ⟨⟩⟩ := taken
  have accounted := accounted.construct constructs
  have empty : made.descriptor i = none := descriptor_eq (construct_self constructs).2
  exact (accounted.newSock empty news).keep (descriptor_eq found).symm

/-- Every call keeps the account of the descriptors. -/
theorem step {action : Action I} (accounted : s.Accounted dropped)
    (taken : s.step action = some next) : next.Accounted (action.dropped.toList ++ dropped) := by
  cases action with
  | construct i family => exact accounted.construct taken
  | createUDP i family fd => exact accounted.createUDP taken
  | bind i family fd unix bound =>
      obtain ⟨⟨answer, after⟩, binds, ⟨⟩⟩ := Option.map_eq_some_iff.mp taken
      exact accounted.bind binds
  | connect i family fd connected =>
      obtain ⟨⟨answer, after⟩, connects, ⟨⟩⟩ := Option.map_eq_some_iff.mp taken
      exact accounted.connect connects
  | accept i j newsock registered =>
      obtain ⟨⟨answer, after⟩, accepts, ⟨⟩⟩ := Option.map_eq_some_iff.mp taken
      exact accounted.accept accepts
  | close i => exact accounted.close taken
  | destroy i => exact accounted.destroy taken

end Accounted

/-- The descriptors that were dropped in a run. -/
def droppedIn (actions : List (Action I)) : List Nat := actions.filterMap Action.dropped

omit [DecidableEq I] in
theorem accounted_initial : (initial : Sockets I).Accounted [] where
  owned := ⟨nofun, nofun, fun inside => absurd inside (Finset.notMem_empty _), nofun⟩
  closes := rfl

/-- Every run keeps the account of the descriptors. -/
theorem Accounted.exec {actions : List (Action I)} (accounted : s.Accounted dropped)
    (ran : Library.exec Sockets.step s actions = some next) :
    next.Accounted ((droppedIn actions).reverse ++ dropped) :=
  exec_collects Accounted.step accounted ran

/-- No descriptor is lost and none is closed twice. After any calls on any sockets the open
descriptors are those that one object holds, and those of connections that `accept` did not
want; no object holds the descriptor of another one, and `::close` was called only for
descriptors that were open. -/
theorem descriptors_accounted {actions : List (Action I)} {final : Sockets I}
    (ran : exec step initial actions = some final) :
    final.badCloses = 0 ∧
      (∀ fd, fd ∈ final.opened ↔ fd ∈ droppedIn actions ∨ ∃ i, final.descriptor i = some fd) ∧
      (∀ i fd, final.descriptor i = some fd → fd ∉ droppedIn actions) ∧
      ∀ i j fd, final.descriptor i = some fd → final.descriptor j = some fd → i = j := by
  obtain ⟨owned, closes⟩ := accounted_initial.exec ran
  rw [List.append_nil] at owned
  refine ⟨closes, fun fd => ⟨fun inside => ?_, ?_⟩, fun i fd holds member => ?_, fun _ _ _ => owned.apart⟩
  · exact (owned.all inside).imp_left List.mem_reverse.mp
  · rintro (member | ⟨i, holds⟩)
    · exact owned.kept (List.mem_reverse.mpr member)
    · exact (owned.held_open holds).1
  · exact (owned.held_open holds).2 (List.mem_reverse.mpr member)

section Runs

/-- A listening socket accepts one connection and drops another one. -/
def accepts : List (Action (Fin 3)) :=
  [.construct 0 2, .bind 0 2 (some 3) none true, .accept 0 1 (some 4) true,
    .accept 0 2 (some 5) false, .destroy 1, .close 0, .destroy 0]

theorem descriptors_accounted_accepts : ∃ final, exec step initial accepts = some final ∧
    final.badCloses = 0 ∧
      (∀ fd, fd ∈ final.opened ↔ fd ∈ droppedIn accepts ∨ ∃ i, final.descriptor i = some fd) ∧
      (∀ i fd, final.descriptor i = some fd → fd ∉ droppedIn accepts) ∧
      ∀ i j fd, final.descriptor i = some fd → final.descriptor j = some fd → i = j := by
  have runs : (exec step initial accepts).isSome = true := by decide
  obtain ⟨final, ran⟩ := Option.isSome_iff_exists.mp runs
  exact ⟨final, ran, descriptors_accounted ran⟩

end Runs

end Sylar.Sockets
