import HttpExchange.Text.Numeral

/-!
The status codes that have a name here, each with its number and reason phrase. Exactly one of
them never carries a body.
-/

namespace HttpExchange

inductive Status where
  | ok | created | accepted | noContent | badRequest | unauthorized | forbidden | notFound
  | methodNotAllowed | internalServerError | notImplemented | badGateway | serviceUnavailable
  deriving DecidableEq, Repr

namespace Status

def all : List Status :=
  [ok, created, accepted, noContent, badRequest, unauthorized, forbidden, notFound,
    methodNotAllowed, internalServerError, notImplemented, badGateway, serviceUnavailable]

def code : Status → Nat
  | ok => 200
  | created => 201
  | accepted => 202
  | noContent => 204
  | badRequest => 400
  | unauthorized => 401
  | forbidden => 403
  | notFound => 404
  | methodNotAllowed => 405
  | internalServerError => 500
  | notImplemented => 501
  | badGateway => 502
  | serviceUnavailable => 503

def reason : Status → String
  | ok => "OK"
  | created => "Created"
  | accepted => "Accepted"
  | noContent => "No Content"
  | badRequest => "Bad Request"
  | unauthorized => "Unauthorized"
  | forbidden => "Forbidden"
  | notFound => "Not Found"
  | methodNotAllowed => "Method Not Allowed"
  | internalServerError => "Internal Server Error"
  | notImplemented => "Not Implemented"
  | badGateway => "Bad Gateway"
  | serviceUnavailable => "Service Unavailable"

def ofCode? (n : Nat) : Option Status := all.find? fun s => s.code == n

/-- Whether a response with this status is sent without a body, whatever it was given. -/
def forbidsBody (s : Status) : Bool := s == noContent

def line (s : Status) : String := Numeral.decimal s.code ++ " " ++ s.reason

theorem ofCode?_code (s : Status) : ofCode? s.code = some s := by
  cases s <;> rfl

theorem code_of_ofCode? {n : Nat} {s : Status} (found : ofCode? n = some s) : s.code = n := by
  simpa using List.find?_some found

end Status

end HttpExchange
