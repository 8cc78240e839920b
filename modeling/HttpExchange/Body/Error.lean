import HttpExchange.Wire.Error

/-!
What can go wrong with a body. When a producer fails, the error says whether the head was already
on the wire: before that another response can still be chosen, after it only the connection can
be aborted.
-/

namespace HttpExchange

/-- Why a body stopped before its end. -/
inductive Mishap where
  /-- The producer yielded an error with this text. -/
  | raised (text : String)
  /-- The producer panicked, with a text or with something else. -/
  | panicked (text : Option String)
  /-- The bytes that the producer relays could not be read. -/
  | unread (e : WireError)
  /-- There were more bytes than announced. -/
  | tooLong (announced : Nat)
  /-- There were fewer bytes than announced. -/
  | tooShort (written announced : Nat)
  deriving DecidableEq, Repr

def Mishap.message : Mishap → String
  | .raised text => text
  | .panicked text => "body producer panicked: " ++ text.getD "unknown panic"
  | .unread e => e.message
  | .tooLong announced => "body exceeds Content-Length " ++ Numeral.decimal announced
  | .tooShort written announced =>
    "body ended after " ++ Numeral.decimal written ++ " of " ++ Numeral.decimal announced ++ " bytes"

inductive BodyError where
  /-- The body could not be read off the wire, or written to it. -/
  | wire (e : WireError)
  | producer (cause : Mishap)
  /-- The producer failed and nothing was written. -/
  | preCommit (cause : Mishap)
  /-- The producer failed behind the head and this many chunks. -/
  | postCommit (chunks : Nat) (cause : Mishap)
  | cancelled (committed : Bool)
  | alreadyConsumed
  deriving DecidableEq, Repr

namespace BodyError

def message : BodyError → String
  | wire e => e.message
  | producer cause => "Body producer failed: " ++ cause.message
  | preCommit cause => "Body failed before the head was sent: " ++ cause.message
  | postCommit chunks cause =>
    "Body failed after " ++ Numeral.decimal chunks ++ " chunk(s) were sent: " ++ cause.message
  | cancelled committed =>
    "Body cancelled (head committed: " ++ (if committed then "true" else "false") ++ ")"
  | alreadyConsumed => "Body already consumed"

/-- Whether the body was cut short, which nobody may take for its end. -/
def isIncomplete (e : BodyError) : Bool := e == wire .incomplete

def isPostCommit : BodyError → Bool
  | postCommit _ _ => true
  | cancelled committed => committed
  | _ => false

end BodyError

end HttpExchange
