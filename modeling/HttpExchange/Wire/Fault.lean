/-!
Failures of a transport. Which kind a failure is decides what it means to a reader: a peer that
is gone is told apart from a transport that broke.
-/

namespace HttpExchange

inductive IoKind where
  | connectionReset | connectionAborted | brokenPipe | unexpectedEof | timedOut | interrupted
  | permissionDenied | invalidData | writeZero | notConnected | networkUnreachable | other
  deriving DecidableEq, Repr

/-- A failure with its text. -/
structure IoFault where
  kind : IoKind
  text : String
  deriving DecidableEq, Repr

namespace IoKind

/-- Whether a read that fails so means that the peer has gone away. -/
def isTeardown : IoKind → Bool
  | unexpectedEof | connectionReset | connectionAborted | brokenPipe => true
  | _ => false

/-- Whether what failed so is simply tried again where a fixed amount is asked for. -/
def isTransient (kind : IoKind) : Bool := kind == interrupted

end IoKind

namespace IoFault

def writeZero : IoFault := ⟨.writeZero, "write zero"⟩

def brokenPipe : IoFault := ⟨.brokenPipe, "broken pipe"⟩

end IoFault

end HttpExchange
