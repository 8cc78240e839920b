import HttpExchange.Body.Error
import HttpExchange.Text.Utf8

/-!
What can go wrong on the side of a client. A request that could not be sent gets no response, and
that is told apart from a response that is cut short.
-/

namespace HttpExchange

inductive ClientError where
  | parse (e : HeadError)
  | io (e : IoFault)
  | body (e : BodyError)
  /-- The body of the request could not be sent. -/
  | requestBody (e : BodyError)
  /-- The server closed the connection in front of a response. -/
  | connectionClosed
  /-- A document could not be read or written. -/
  | json
  /-- A body that was read as text is none. -/
  | notText (fault : Utf8.Fault)
  deriving DecidableEq, Repr

namespace ClientError

def message : ClientError → String
  | parse e => "Parse error: " ++ e.message
  | io e => "I/O error: " ++ e.text
  | body e => "Body error: " ++ e.message
  | requestBody e => "Request body failed: " ++ e.message
  | connectionClosed => "Connection closed before a response was received"
  | json => "JSON error"
  | notText fault => "Invalid UTF-8 in body: " ++ fault.message

/-- Whether the server closed the connection inside what was read. -/
def isIncomplete : ClientError → Bool
  | body e => e.isIncomplete
  | _ => false

end ClientError

end HttpExchange
