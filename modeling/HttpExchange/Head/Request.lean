import HttpExchange.Head.Fields
import HttpExchange.Head.Method
import HttpExchange.Head.Version
import HttpExchange.Text.Utf8

/-!
Request heads: the request line, the fields, and what follows from them, such as the query
and the wish to close the connection.
-/

namespace HttpExchange

structure RequestHead where
  method : Method
  /-- The target, with its query. -/
  target : String
  version : Version
  fields : Fields
  deriving DecidableEq, Repr

namespace RequestHead

/-- The part of a target that is routed: what stands before the first question mark. -/
def pathOf (target : String) : String :=
  match Text.cut '?' target.toList with
  | some (path, _) => String.ofList path
  | none => target

/-- A name and a value; a piece without an equals sign is a name with the empty value. -/
def queryPair (piece : List Char) : String × String :=
  match Text.cut '=' piece with
  | some (name, value) => (String.ofList name, String.ofList value)
  | none => (String.ofList piece, "")

/-- The pairs of a query in order: the pieces between ampersands that are not empty. -/
def queryPairs (target : String) : List (String × String) :=
  match Text.cut '?' target.toList with
  | some (_, query) =>
    ((Text.splitOn '&' query).filter fun piece => !piece.isEmpty).map queryPair
  | none => []

/-- The query as a map: of pairs with one name the last counts. -/
def queryOf (target : String) : Fields :=
  (queryPairs target).foldl (fun map pair => map.insert pair.1 pair.2) []

variable (head : RequestHead)

def path : String := pathOf head.target

/-- The value of a field, whatever the case of its name. -/
def field? (name : String) : Option String := head.fields.find? name

def query : Fields := queryOf head.target

/-- The value that the query gives to a name, which is compared exactly. -/
def queryValue? (name : String) : Option String := head.query.lookup name

/-- Whether the sender wants the connection closed after this exchange. It says so, or it does
not say the opposite and speaks the version that closes by default. -/
def wantsClose : Bool :=
  match head.field? Fields.connection with
  | some value =>
    if sameName value "close" then true
    else if sameName value "keep-alive" then false
    else head.version == .http10
  | none => head.version == .http10

end RequestHead

/-- Whether a target is absolute or stands for the server as a whole. -/
def RequestHead.isTarget (target : List Char) : Bool :=
  target.head? == some '/' || target == ['*']

/-- A request head from its lines. The first has three words; a request of version 1.1 has to
name its host. -/
def RequestHead.ofLines : List (List Char) → Except HeadError RequestHead
  | [] => .error .empty
  | line :: rest => match Text.words line with
    | [method, target, version] => do
      let method ← Method.parse (String.ofList method)
      if !isTarget target then throw .badTarget
      let version ← Version.parse (String.ofList version)
      let fields ← Fields.ofLines rest
      if version == .http11 && !fields.has "Host" then throw (.missingField "Host")
      return ⟨method, String.ofList target, version, fields⟩
    | _ => .error (.badRequestLine (String.ofList line))

/-- Reads a request head. What stands after its first empty line is only required to be text. -/
def RequestHead.parse (input : Bytes) : Except HeadError RequestHead :=
  match Utf8.decodeChars input with
  | .error _ => .error (.badRequestLine "Invalid UTF-8")
  | .ok text => ofLines (Text.lines text)

end HttpExchange
