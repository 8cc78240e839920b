import HttpExchange.Body.Content
import HttpExchange.Head.Request
import HttpExchange.Json.Reader
import HttpExchange.Server.Error

/-!
Requests as handlers see them: the head, the values of the route's parameters, and a body that can
be taken once.
-/

namespace HttpExchange

structure Request where
  head : RequestHead
  parameters : List (String × String)
  body : Body := {}
  deriving DecidableEq, Repr

namespace Request

variable (r : Request)

/-- The value of a field, whatever the case of its name. -/
def field? (name : String) : Option String := r.head.field? name

def parameter? (name : String) : Option String := r.parameters.lookup name

def queryValue? (name : String) : Option String := r.head.queryValue? name

/-- The body of a request with this framing, which comes over the same link as the head. -/
def bodyOf (framing : Framing) : Body :=
  match framing with
  | .empty => .empty
  | _ => .ofProducer .incoming

/-- Takes the body. A request has one body, and it is there once. -/
def takeBody : Except BodyError Producer × Request :=
  let (taken, body) := r.body.take
  (taken, { r with body })

def jsonType : String := "application/json"

/-- Whether the request says that its body is a document. -/
def isJson : Bool :=
  ((r.field? "Content-Type").map fun type => jsonType.toList.isPrefixOf type.toList).getD false

def readText (b : Bytes) : Except ServerError String :=
  match Utf8.decode b with
  | .ok text => .ok text
  | .error fault => .error (.internal ("request body is not UTF-8: " ++ fault.message))

/-- The fault of a request that is read as a document and does not say that it is one. -/
def notJson : ServerError := .parse (.missingField ("Content-Type: " ++ jsonType))

end Request

end HttpExchange
