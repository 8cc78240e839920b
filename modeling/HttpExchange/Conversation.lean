import HttpExchange.Client.Script
import HttpExchange.Duplex
import HttpExchange.Server.Connection

/-!
A client and a server joined by a pair of pipes. The client visits the server once and closes its
end; the server serves the connection.
-/

namespace HttpExchange

def Client.party (c : Client) (patience : Nat) (draft : Draft) (looks : List Look) : Party Visit :=
  fun l =>
    let visit := c.visit patience draft looks l
    ⟨visit, visit.link, visit.wake⟩

/-- A server as a party, with its counters before the connection. -/
def Server.party {ω : Type} (server : Server ω) (patience : Nat) (counters : Counters) :
    Party (Outcome ServerError Unit × Session ω) :=
  fun l =>
    let (out, session) := server.serve { link := l.call patience, counters }
    let wake := match out with
      | .stuck => session.link.waits? patience l
      | _ => none
    ⟨(out, session), session.link, wake⟩

/-- What comes of a conversation. -/
structure Conversation (ω : Type) where
  visit : Visit
  /-- What came of serving the connection. -/
  served : Outcome ServerError Unit
  session : Session ω

/-- Joins a client and a server by pipes that hold `capacity` bytes each. Each of their calls may
take so long; the fuel bounds the number of rounds, and there is nothing when it runs out at
once. -/
def Conversation.hold {ω : Type} (fuel capacity patience : Nat) (c : Client) (draft : Draft)
    (looks : List Look) (server : Server ω) (counters : Counters) : Option (Conversation ω) :=
  let setting : Duplex.Setting Visit (Outcome ServerError Unit × Session ω) :=
    { capacity
      first := c.party patience draft looks
      firstBuffer := c.config.readBufferSize
      second := server.party patience counters
      secondBuffer := server.config.readBufferSize }
  let state := Duplex.join setting fuel
  match state.first, state.second with
  | some a, some b => some ⟨a.result, b.result.1, b.result.2⟩
  | _, _ => none

end HttpExchange
