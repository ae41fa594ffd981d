import Mathlib.Data.Finset.Basic

/-!
# The server and its connections

`server`, `connection_manager` and what a `connection` does with its socket. A
connection is known by its number in the order of acceptance; what is left of it
when nothing refers to it any more stays in the list. An event is the completion of
an outstanding asynchronous operation, with the handler that runs on it. A handler
runs to its end before the next event.
-/

namespace RePlace.Http

namespace Server

/-- An asynchronous operation of a connection. -/
inductive Operation
  | read
  | write
deriving DecidableEq

/-- How the parser leaves a read: with an error, with a complete message, or
waiting for more. -/
inductive Received
  | parseError
  | complete
  | incomplete
deriving DecidableEq

/-- What an operation completes with, `operation_aborted` apart from other errors. -/
inductive Completion (α : Type)
  | done (result : α)
  | error
  | aborted
deriving DecidableEq

/-- The completion with `operation_aborted`. -/
def Completion.isAborted {α : Type} : Completion α → Bool
  | .aborted => true
  | _ => false

/-- A connection: its socket, the operations it is waiting for, and how often it
has called `handle_request` and has begun to write a response. -/
structure Connection where
  socketOpen : Bool := true
  outstanding : List Operation := []
  handled : ℕ := 0
  writes : ℕ := 0
deriving DecidableEq

namespace Connection

/-- `connection::do_read`. -/
def doRead (c : Connection) : Connection := { c with outstanding := .read :: c.outstanding }

/-- `connection::do_write`. -/
def doWrite (c : Connection) : Connection :=
  { c with outstanding := .write :: c.outstanding, writes := c.writes + 1 }

/-- `connection::start`. -/
def start (c : Connection) : Connection := c.doRead

/-- `connection::stop`. -/
def stop (c : Connection) : Connection := { c with socketOpen := false }

/-- `request_handler::handle_request` has been called. -/
def handle (c : Connection) : Connection := { c with handled := c.handled + 1 }

/-- An operation has completed. -/
def complete (c : Connection) (op : Operation) : Connection :=
  { c with outstanding := c.outstanding.erase op }

/-- Whether an operation can complete so: it is outstanding, and `operation_aborted`
comes on a closed socket only. Everything else can come on a closed socket too: it
was queued before, or the socket is not usable. -/
def CanComplete {α : Type} (c : Connection) (op : Operation) (completion : Completion α) : Bool :=
  op ∈ c.outstanding ∧ ¬ (completion.isAborted ∧ c.socketOpen)

end Connection

end Server

/-- The acceptor, the operations of the server, its connections, and the set of the
connection manager. -/
structure Server where
  acceptorOpen : Bool := true
  accepting : ℕ := 1
  awaitingStop : Bool := true
  connections : List Server.Connection := []
  managed : Finset ℕ := ∅
deriving DecidableEq

namespace Server

/-- What is done to one connection. -/
def modify (s : Server) (i : ℕ) (f : Connection → Connection) : Server :=
  { s with connections := s.connections.modify i f }

/-! ## The connection manager -/

/-- `connection_manager::start` with a new connection. -/
def managerStart (s : Server) : Server :=
  { s with
    connections := s.connections ++ [({} : Connection).start]
    managed := insert s.connections.length s.managed }

/-- `connection_manager::stop`. -/
def managerStop (s : Server) (i : ℕ) : Server :=
  { s.modify i Connection.stop with managed := s.managed.erase i }

/-- `connection_manager::stop_all`. -/
def stopAll (s : Server) : Server :=
  { s with
    connections := s.connections.mapIdx fun i c => if i ∈ s.managed then c.stop else c
    managed := ∅ }

/-! ## The handlers -/

/-- `server::do_accept`. -/
def doAccept (s : Server) : Server := { s with accepting := s.accepting + 1 }

/-- The handler of `server::do_accept`: whether the acceptor gave a socket. -/
def onAccept (s : Server) (ok : Bool) : Server :=
  if s.acceptorOpen = false then s
  else if ok then s.managerStart.doAccept
  else s.doAccept

/-- The handler of `connection::do_read`. -/
def onRead (s : Server) (i : ℕ) : Completion Received → Server
  | .done .parseError => s.modify i Connection.doWrite
  | .done .complete => s.modify i fun c => c.handle.doWrite
  | .done .incomplete => s.modify i Connection.doRead
  | .error => s.managerStop i
  | .aborted => s

/-- The handler of `connection::do_write`; a response that has been written shuts
the socket down, which leaves it open. -/
def onWrite (s : Server) (i : ℕ) : Completion Unit → Server
  | .done () => s.managerStop i
  | .error => s.managerStop i
  | .aborted => s

/-- The handler of `server::do_await_stop`. -/
def onStop (s : Server) : Server := ({ s with acceptorOpen := false } : Server).stopAll

/-! ## Steps -/

/-- The completion of an outstanding operation. -/
inductive Event
  | accept (ok : Bool)
  | read (i : ℕ) (completion : Completion Received)
  | write (i : ℕ) (completion : Completion Unit)
  | stop
deriving DecidableEq

/-- One completion and its handler. -/
def step (s : Server) : Event → Option Server
  | .accept ok =>
      if s.accepting = 0 then none
      else some (({ s with accepting := s.accepting - 1 } : Server).onAccept ok)
  | .read i completion =>
      if (s.connections[i]?.any fun c => c.CanComplete .read completion) then
        some ((s.modify i fun c => c.complete .read).onRead i completion)
      else none
  | .write i completion =>
      if (s.connections[i]?.any fun c => c.CanComplete .write completion) then
        some ((s.modify i fun c => c.complete .write).onWrite i completion)
      else none
  | .stop =>
      if s.awaitingStop then some ({ s with awaitingStop := false } : Server).onStop else none

end Server

end RePlace.Http
