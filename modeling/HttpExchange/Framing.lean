import HttpExchange.Head.Request
import HttpExchange.Head.Response
import HttpExchange.Wire.Error

/-!
How a body is delimited on the wire. The sender announces it with a field; the receiver finds it
in the fields, the status and the method. Chunks win over a content length.
-/

namespace HttpExchange

inductive Framing where
  /-- No bytes follow the head. -/
  | empty
  /-- As many bytes follow as are announced. -/
  | length (n : Nat)
  /-- Chunks follow, each behind its size, up to one of size zero. -/
  | chunked
  /-- All bytes follow up to the end of the connection. -/
  | untilClose
  deriving DecidableEq, Repr

namespace Framing

/-- Whether a list of encodings ends with the chunked one. -/
def endsChunked (encodings : String) : Bool :=
  match (Text.splitOn ',' encodings.toList).getLast? with
  | some last => sameName (String.ofList (Text.trim last)) "chunked"
  | none => false

def ofLength (text : String) : Except WireError Framing :=
  match Numeral.read 10 Numeral.bound64 (Text.trim text.toList) with
  | some 0 => .ok empty
  | some n => .ok (length n)
  | none => .error (.length text)

/-- The framing that fields announce, if they announce one. -/
def announced (fields : Fields) : Except WireError (Option Framing) :=
  if ((fields.find? Fields.transferEncoding).map endsChunked).getD false then .ok (some chunked)
  else match fields.find? Fields.contentLength with
    | some text => (ofLength text).map some
    | none => .ok none

/-- The framing of a request body. A request that announces none has no body. -/
def ofRequest (head : RequestHead) : Except WireError Framing :=
  (announced head.fields).map fun found => found.getD empty

/-- Whether a response with this number, to a request with this method, has no body whatever its
fields say. -/
def bodiless (method : Method) (status : Nat) : Bool :=
  method == .head || (100 ≤ status && status < 200) || status == 204 || status == 304

/-- The framing of the body of a response to a request with this method. A response that announces
none runs until the connection ends. -/
def ofResponse (head : ResponseHead) (method : Method) : Except WireError Framing :=
  if bodiless method head.status then .ok empty
  else (announced head.fields).map fun found => found.getD untilClose

def field? : Framing → Option (String × String)
  | empty => some (Fields.contentLength, "0")
  | length n => some (Fields.contentLength, Numeral.decimal n)
  | chunked => some (Fields.transferEncoding, "chunked")
  | untilClose => none

/-- The number of bytes that a framing fixes in advance. -/
def declared? : Framing → Option Nat
  | empty => some 0
  | length n => some n
  | chunked | untilClose => none

end Framing

end HttpExchange
