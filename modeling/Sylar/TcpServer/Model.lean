import Sylar.Library.Transition
import Sylar.Socket.Model

/-!
# A server and its sockets

`tcp_server.cpp` with the functions that it schedules. A `Socket` lives as long as the list
of the server or one of these functions refers to it. The functions run on worker threads, so
that the calls of the server and the rounds of the functions come in any order.
-/

namespace Sylar

namespace TcpServer

/-- A function that was scheduled and has not returned. -/
inductive Task (I : Type) where
  /-- `startAccept`, at the head of its loop or in `accept`. -/
  | startAccept (sock : I) (accepting : Bool)
  | handleClient (client : I)
  /-- The function that `stop` schedules. -/
  | stop
deriving DecidableEq, Repr

/-- The socket that the function was bound to. -/
def Task.socket {I : Type} : Task I → Option I
  | .startAccept sock _ => some sock
  | .handleClient client => some client
  | .stop => none

end TcpServer

/-- `TcpServer`, the sockets of the process, and the functions that it scheduled. -/
structure TcpServer (I : Type) where
  sockets : Sockets I
  socks : List I
  isStop : Bool
  tasks : List (TcpServer.Task I)

namespace TcpServer

/-- One round of the loop in `bind`: the new socket, the family of the address, and what the system
calls return. -/
structure Attempt (I : Type) where
  sock : I
  family : Nat
  fd : Option Nat
  unix : Option Sockets.Probe
  bound : Bool
  listens : Bool
deriving DecidableEq, Repr

variable {I : Type} [DecidableEq I]

/-- The references to sockets. -/
def references (t : TcpServer I) : List I := t.socks ++ t.tasks.filterMap Task.socket

/-- The objects that lost a reference are destroyed when it was the last one. -/
def dropRefs (t : TcpServer I) : List I → Option (TcpServer I)
  | [] => some t
  | i :: rest =>
      if i ∈ t.references ∨ (t.sockets.sockets i).isNone then t.dropRefs rest
      else do
        let sockets ← t.sockets.destroy i
        dropRefs { t with sockets := sockets } rest

/-- One round of the loop in `bind`, and whether the address is not added to `fails`. -/
def bindOne (t : TcpServer I) (attempt : Attempt I) : Option (Bool × TcpServer I) := do
  let s ← t.sockets.construct attempt.sock attempt.family
  let (bound, s) ← s.bind attempt.sock attempt.family attempt.fd attempt.unix attempt.bound
  let listens ← s.listen attempt.sock attempt.listens
  if bound && listens then
    some (true, { t with sockets := s, socks := t.socks ++ [attempt.sock] })
  else some (false, { t with sockets := ← s.destroy attempt.sock })

/-- The loop of `bind`, and whether no address is added to `fails`. -/
def bindAll (t : TcpServer I) : List (Attempt I) → Option (Bool × TcpServer I)
  | [] => some (true, t)
  | attempt :: rest => do
      let (first, t) ← t.bindOne attempt
      let (others, t) ← t.bindAll rest
      some (first && others, t)

/-- `TcpServer::bind`, and whether `fails` is empty before: an address that another call left there
counts as well. -/
def bind (t : TcpServer I) (empty : Bool) (attempts : List (Attempt I)) :
    Option (TcpServer I) := do
  let (all, t) ← t.bindAll attempts
  if empty && all then some t else dropRefs { t with socks := [] } t.socks

/-- `TcpServer::start`. -/
def start (t : TcpServer I) : TcpServer I :=
  if t.isStop then
    { t with isStop := false, tasks := t.tasks ++ t.socks.map (.startAccept · false) }
  else t

/-- `TcpServer::stop`. -/
def stop (t : TcpServer I) : TcpServer I := { t with isStop := true, tasks := t.tasks ++ [.stop] }

/-- `sock->close()` for each of them. -/
def closeSocks (s : Sockets I) : List I → Option (Sockets I)
  | [] => some s
  | i :: rest => do closeSocks (← s.close i) rest

/-- The loops of `~TcpServer` and of the function that `stop` schedules. -/
def closeAll (t : TcpServer I) : Option (TcpServer I) := do
  let sockets ← closeSocks t.sockets t.socks
  dropRefs { t with sockets := sockets, socks := [] } t.socks

/-- One step of a thread. -/
inductive Action (I : Type) where
  | bind (empty : Bool) (attempts : List (Attempt I))
  | start
  | stop
  /-- The test at the head of the loop in `startAccept`. -/
  | test (sock : I)
  /-- `accept` returns, and the client is scheduled. -/
  | accepted (sock client : I) (newsock : Option Nat) (registered : Bool)
  /-- `handleClient` closes its socket. -/
  | closeClient (client : I)
  /-- `handleClient` returns. -/
  | handled (client : I)
  /-- The function that `stop` scheduled runs. -/
  | closeAll
  /-- `~TcpServer`: the functions hold the server, so that none is left. -/
  | destroy
deriving DecidableEq, Repr

/-- The descriptor of a connection that was accepted and not wanted. -/
def Action.dropped : Action I → Option Nat
  | .accepted sock client newsock registered =>
      (Sockets.Action.accept sock client newsock registered).dropped
  | _ => none

/-- The descriptors that a run drops. -/
def droppedIn (actions : List (Action I)) : List Nat := actions.filterMap Action.dropped

/-- What a step does. The listening descriptor of `accept` is read where the call returns. The
source reads it where the call begins, and `do_io` calls the kernel again with the same number when
the connection is there: what it does on a number that was closed in between and handed out again
is not in the model. -/
def step (t : TcpServer I) : Action I → Option (TcpServer I)
  | .bind empty attempts => t.bind empty attempts
  | .start => some t.start
  | .stop => some t.stop
  | .test sock =>
      if .startAccept sock false ∈ t.tasks then
        let tasks := t.tasks.erase (.startAccept sock false)
        if t.isStop then dropRefs { t with tasks := tasks } [sock]
        else some { t with tasks := tasks ++ [.startAccept sock true] }
      else none
  | .accepted sock client newsock registered =>
      if .startAccept sock true ∈ t.tasks then do
        let (returned, sockets) ← t.sockets.accept sock client newsock registered
        let tasks := t.tasks.erase (.startAccept sock true) ++ [.startAccept sock false]
        some { t with
          sockets := sockets
          tasks := if returned then tasks ++ [.handleClient client] else tasks }
      else none
  | .closeClient client =>
      if .handleClient client ∈ t.tasks then
        (t.sockets.close client).map fun sockets => { t with sockets := sockets }
      else none
  | .handled client =>
      if .handleClient client ∈ t.tasks then
        dropRefs { t with tasks := t.tasks.erase (.handleClient client) } [client]
      else none
  | .closeAll =>
      if .stop ∈ t.tasks then closeAll { t with tasks := t.tasks.erase .stop } else none
  | .destroy => if t.tasks.isEmpty then t.closeAll else none

/-- The server once it is constructed. -/
def initial : TcpServer I := ⟨.initial, [], true, []⟩

end TcpServer

end Sylar
