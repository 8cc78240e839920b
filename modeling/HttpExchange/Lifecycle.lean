/-!
The life of one exchange: a request and the response to it. Once the head of the message that
this side sends is on the wire it cannot be taken back; from then on a failure can only abort.
Nothing leaves an end of the life.
-/

namespace HttpExchange

/-- Where an exchange stands. -/
inductive Phase where
  | opened | headSent | streaming | completed | aborted
  deriving DecidableEq, Repr

namespace Phase

def isTerminal : Phase → Bool
  | completed | aborted => true
  | _ => false

def isCommitted (phase : Phase) : Bool := phase != opened

def allows : Phase → Phase → Bool
  | opened, headSent => true
  | headSent, streaming => true
  | streaming, completed => true
  | opened, aborted | headSent, aborted | streaming, aborted => true
  | _, _ => false

end Phase

/-- An exchange with its number. -/
structure Exchange where
  id : Nat
  phase : Phase := .opened
  deriving DecidableEq, Repr

namespace Exchange

/-- Moves on to a phase, if that is allowed; else nothing changes. Says whether it moved. -/
def advance (x : Exchange) (next : Phase) : Bool × Exchange :=
  if x.phase.allows next then (true, { x with phase := next }) else (false, x)

def abort (x : Exchange) : Bool × Exchange := x.advance .aborted

end Exchange

end HttpExchange
