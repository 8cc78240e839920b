import HttpExchange.Head.Error

/-!
Protocol versions of a start line. The third one can be read, so that it can be answered, in two
spellings; it is written in one.
-/

namespace HttpExchange

inductive Version where
  | http10 | http11 | http2
  deriving DecidableEq, Repr

namespace Version

def token : Version → String
  | http10 => "HTTP/1.0"
  | http11 => "HTTP/1.1"
  | http2 => "HTTP/2"

def parse (text : String) : Except HeadError Version :=
  if text = "HTTP/1.0" then .ok http10
  else if text = "HTTP/1.1" then .ok http11
  else if text = "HTTP/2" ∨ text = "HTTP/2.0" then .ok http2
  else .error (.unknownVersion text)

theorem parse_token (v : Version) : parse v.token = .ok v := by
  cases v <;> simp [parse, token]

end Version

end HttpExchange
