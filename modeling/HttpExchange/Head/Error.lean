import HttpExchange.Text.Numeral

/-!
What can be wrong with the head of a message, with the wording of each fault.
-/

namespace HttpExchange

/-- A fault in a request head or a response head. -/
inductive HeadError where
  | unknownMethod (text : String)
  | badTarget
  | badRequestLine (line : String)
  | badStatusLine (line : String)
  | badStatus (text : String)
  | unknownVersion (text : String)
  | missingField (name : String)
  | badField
  | empty
  | tooLarge (limit : Nat)
  deriving DecidableEq, Repr

def HeadError.message : HeadError → String
  | .unknownMethod text => "Invalid HTTP method: " ++ text
  | .badTarget => "Invalid HTTP path"
  | .badRequestLine line => "Malformed request line: " ++ line
  | .badStatusLine line => "Malformed status line: " ++ line
  | .badStatus text => "Invalid status code: " ++ text
  | .unknownVersion text => "Invalid HTTP version: " ++ text
  | .missingField name => "Required header is missing: " ++ name
  | .badField => "Invalid header format"
  | .empty => "Empty request"
  | .tooLarge limit => "Head exceeds " ++ Numeral.decimal limit ++ " bytes"

end HttpExchange
