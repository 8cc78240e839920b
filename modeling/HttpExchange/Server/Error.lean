import HttpExchange.Body.Error
import HttpExchange.Route.Error

/-!
What can go wrong on the side of a server: in a handler, or on a connection.
-/

namespace HttpExchange

inductive ServerError where
  | parse (e : HeadError)
  | io (e : IoFault)
  | notFound (text : String)
  | internal (text : String)
  /-- A document could not be read or written. -/
  | json
  | body (e : BodyError)
  | route (e : RouteError)
  /-- An exchange was aborted behind the head of its response. -/
  | aborted (exchange : Nat) (e : BodyError)
  deriving DecidableEq, Repr

def ServerError.message : ServerError → String
  | parse e => "Parse error: " ++ e.message
  | io e => "I/O error: " ++ e.text
  | notFound text => "Not found: " ++ text
  | internal text => "Internal server error: " ++ text
  | json => "JSON error"
  | body e => "Body error: " ++ e.message
  | route e => "Routing error: " ++ e.message
  | aborted exchange e => "Exchange " ++ Numeral.decimal exchange ++ " aborted: " ++ e.message

end HttpExchange
