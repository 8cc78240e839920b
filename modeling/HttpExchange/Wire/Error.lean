import HttpExchange.Head.Error
import HttpExchange.Wire.Fault

/-!
What can go wrong while a message is read off a connection, or written to it. A connection that
ends too early is one error, whether the end came in order or as a failure.
-/

namespace HttpExchange

/-- A fault in the chunks of a body. -/
inductive ChunkFault where
  | lineTooLong
  | missingLineEnd
  | sizeNotText
  | badSize (text : String)
  deriving DecidableEq, Repr

def ChunkFault.message : ChunkFault → String
  | .lineTooLong => "line too long"
  | .missingLineEnd => "missing CRLF after chunk data"
  | .sizeNotText => "chunk size is not ASCII"
  | .badSize text => "invalid chunk size '" ++ text ++ "'"

inductive WireError where
  | incomplete
  | chunk (fault : ChunkFault)
  | length (text : String)
  | head (fault : HeadError)
  | io (fault : IoFault)
  deriving DecidableEq, Repr

namespace WireError

def message : WireError → String
  | incomplete => "Incomplete body: connection closed before the end of the body"
  | chunk fault => "Invalid chunk framing: " ++ fault.message
  | length text => "Invalid content length: " ++ text
  | head fault => "Parse error: " ++ fault.message
  | io fault => "I/O error: " ++ fault.text

/-- What a failed read means: the message is cut short, or the transport broke. -/
def ofRead (fault : IoFault) : WireError :=
  if fault.kind.isTeardown then incomplete else io fault

end WireError

end HttpExchange
