import HttpExchange.Server.Connection

/-!
The limit on connections that are served at one time. A connection takes a slot when it is accepted
and gives it back when it has ended, however it ended. While no slot is free, further connections
are told so and closed; nothing that they send is read.
-/

namespace HttpExchange

/-- Something that happens to a connection, which is known by a number. -/
inductive ConnectionEvent where
  | accepted (connection : Nat)
  | ended (connection : Nat)
  deriving DecidableEq, Repr

/-- The slots of a server. -/
structure Acceptor where
  free : Nat
  /-- The connections that have a slot. -/
  serving : List Nat := []
  deriving DecidableEq, Repr

namespace Acceptor

def start (config : ServerConfig) : Acceptor := { free := config.maxConnections }

/-- Whether a connection that is accepted now is refused. -/
def refuses (a : Acceptor) : Bool := a.free == 0

/-- The slots behind an event. A connection that is refused gets none. -/
def step (a : Acceptor) : ConnectionEvent → Acceptor
  | .accepted connection =>
    if a.refuses then a else { free := a.free - 1, serving := connection :: a.serving }
  | .ended connection =>
    if connection ∈ a.serving then
      { free := a.free + 1, serving := a.serving.erase connection }
    else a

end Acceptor

namespace Server

variable {ω : Type} (server : Server ω)

def atCapacity : Response :=
  (({ status := .serviceUnavailable } : Response).withContentType "text/plain").withBody
    (.ofBytes (Utf8.encode "Server is at capacity, please try again later"))

/-- Tells a connection that there is no slot, and closes it. -/
def refuse (l : Link) : Link :=
  (atCapacity.send { id := 0 } .get true server.config.bodyIdleTimeout l).2.2.shutdown

end Server

end HttpExchange
