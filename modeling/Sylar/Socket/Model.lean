import Mathlib.Data.Finset.Insert
import Mathlib.Data.Finset.Erase
import Mathlib.Logic.Function.Basic
import Sylar.Library.Transition

/-!
# Sockets and their descriptors

`socket.cpp` without its addresses and options. What the system calls return is part of the
action; a call that creates a descriptor never returns one that is open. `Socket` objects
are named, and one that was destroyed is gone.
-/

namespace Sylar

/-- `Socket`; `sock` is `none` for an `m_sock` of -1. -/
structure Socket where
  family : Nat
  sock : Option Nat
  isConnected : Bool
deriving DecidableEq, Repr

/-- The objects, the descriptors that are open, and the calls of `::close` for one that is not. -/
structure Sockets (I : Type) where
  sockets : I → Option Socket
  opened : Finset Nat
  badCloses : Nat

namespace Sockets

variable {I : Type} [DecidableEq I]

/-- Put a socket at a place, or none. -/
def setSocket (s : Sockets I) (i : I) (socket : Option Socket) : Sockets I :=
  { s with sockets := Function.update s.sockets i socket }

/-- The system opens a descriptor. -/
def openFd (s : Sockets I) (fd : Nat) : Option (Sockets I) :=
  if fd ∈ s.opened then none else some { s with opened := insert fd s.opened }

/-- `::close`. -/
def closeFd (s : Sockets I) (fd : Nat) : Sockets I :=
  if fd ∈ s.opened then { s with opened := s.opened.erase fd }
  else { s with badCloses := s.badCloses + 1 }

/-- The constructor. -/
def construct (s : Sockets I) (i : I) (family : Nat) : Option (Sockets I) :=
  if (s.sockets i).isSome then none else some (s.setSocket i (some ⟨family, none, false⟩))

/-- `Socket::newSock`; `fd` is what `::socket` returned. -/
def newSock (s : Sockets I) (i : I) (fd : Option Nat) : Option (Sockets I) := do
  let socket ← s.sockets i
  match fd with
  | none => some (s.setSocket i (some { socket with sock := none }))
  | some fd => (← s.openFd fd).setSocket i (some { socket with sock := some fd })

/-- `Socket::close`. -/
def close (s : Sockets I) (i : I) : Option (Sockets I) := do
  let socket ← s.sockets i
  match socket.sock with
  | none => some (s.setSocket i (some { socket with isConnected := false }))
  | some fd => some ((s.closeFd fd).setSocket i (some { socket with sock := none, isConnected := false }))

/-- `Socket::~Socket`. -/
def destroy (s : Sockets I) (i : I) : Option (Sockets I) := do
  (← s.close i).setSocket i none

/-- `CreateUDP`, `CreateUDPSocket` and `CreateUDPSocket6`. -/
def createUDP (s : Sockets I) (i : I) (family : Nat) (fd : Option Nat) : Option (Sockets I) := do
  let created ← (← s.construct i family).newSock i fd
  let socket ← created.sockets i
  some (created.setSocket i (some { socket with isConnected := true }))

/-- `isValid`, or `newSock` before it. -/
def ensureSock (s : Sockets I) (i : I) (fd : Option Nat) : Option (Sockets I) := do
  let socket ← s.sockets i
  if socket.sock.isSome then some s else s.newSock i fd

/-- `Socket::connect`, to an address of a family. -/
def connect (s : Sockets I) (i : I) (family : Nat) (fd : Option Nat) (connected : Bool) :
    Option (Bool × Sockets I) := do
  let s ← s.ensureSock i fd
  let socket ← s.sockets i
  if socket.sock.isNone || family ≠ socket.family then some (false, s)
  else if connected then some (true, s.setSocket i (some { socket with isConnected := true }))
  else some (false, ← s.close i)

/-- The socket that `bind` makes to see whether somebody listens at a path: what `::socket` returned
for it, and whether it was connected. -/
structure Probe where
  fd : Option Nat
  connected : Bool
deriving DecidableEq, Repr

/-- The probe is made, connected and destroyed. -/
def probe (s : Sockets I) (attempt : Probe) : Option (Bool × Sockets I) :=
  match attempt.fd with
  | none => some (false, s)
  | some fd => (s.openFd fd).map fun s => (attempt.connected, s.closeFd fd)

/-- `Socket::bind`; `unix` is there for the address of a path. -/
def bind (s : Sockets I) (i : I) (family : Nat) (fd : Option Nat) (unix : Option Probe)
    (bound : Bool) : Option (Bool × Sockets I) := do
  let s ← s.ensureSock i fd
  let socket ← s.sockets i
  if socket.sock.isNone || family ≠ socket.family then some (false, s)
  else
    match unix with
    | none => some (bound, s)
    | some attempt =>
        let (taken, s) ← s.probe attempt
        some (!taken && bound, s)

/-- `Socket::listen`. -/
def listen (s : Sockets I) (i : I) (listens : Bool) : Option Bool := do
  let socket ← s.sockets i
  some (socket.sock.isSome && listens)

/-- `Socket::accept` and `Socket::init`, with what `::accept` returned, which fails without a
descriptor, and whether the manager of the descriptors has an open socket for the new one. The
result is whether the new object `j` is returned. -/
def accept (s : Sockets I) (i j : I) (newsock : Option Nat) (registered : Bool) :
    Option (Bool × Sockets I) := do
  let socket ← s.sockets i
  if (s.sockets j).isSome || newsock.isSome && socket.sock.isNone then none
  else
    match newsock with
    | none => some (false, s)
    | some fd =>
        let s ← s.openFd fd
        if registered then some (true, s.setSocket j (some ⟨socket.family, some fd, true⟩))
        else some (false, s)

/-- A call of a member of a socket. -/
inductive Action (I : Type) where
  | construct (i : I) (family : Nat)
  | createUDP (i : I) (family : Nat) (fd : Option Nat)
  | bind (i : I) (family : Nat) (fd : Option Nat) (unix : Option Probe) (bound : Bool)
  | connect (i : I) (family : Nat) (fd : Option Nat) (connected : Bool)
  | accept (i j : I) (newsock : Option Nat) (registered : Bool)
  | close (i : I)
  | destroy (i : I)
deriving DecidableEq, Repr

/-- A call and what the system answers. -/
def step (s : Sockets I) : Action I → Option (Sockets I)
  | .construct i family => s.construct i family
  | .createUDP i family fd => s.createUDP i family fd
  | .bind i family fd unix bound => (s.bind i family fd unix bound).map Prod.snd
  | .connect i family fd connected => (s.connect i family fd connected).map Prod.snd
  | .accept i j newsock registered => (s.accept i j newsock registered).map Prod.snd
  | .close i => s.close i
  | .destroy i => s.destroy i

/-- Before any call. -/
def initial : Sockets I := ⟨fun _ => none, ∅, 0⟩

/-- `m_sock` of an object. -/
def descriptor (s : Sockets I) (i : I) : Option Nat := (s.sockets i).bind Socket.sock

/-- The descriptor of a connection that was accepted and not wanted. -/
def Action.dropped : Action I → Option Nat
  | .accept _ _ newsock false => newsock
  | _ => none

end Sockets

end Sylar
