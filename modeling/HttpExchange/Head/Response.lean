import HttpExchange.Head.Fields
import HttpExchange.Head.Status
import HttpExchange.Head.Version
import HttpExchange.Text.Utf8

/-!
Response heads: the status line and the fields. The number of the status is kept whether or not
it has a name.
-/

namespace HttpExchange

structure ResponseHead where
  version : Version
  status : Nat
  reason : String
  fields : Fields
  deriving DecidableEq, Repr

namespace ResponseHead

def named? (head : ResponseHead) : Option Status := Status.ofCode? head.status

/-- The value of a field, whatever the case of its name. -/
def field? (head : ResponseHead) (name : String) : Option String := head.fields.find? name

def parseStatus (text : List Char) : Except HeadError Nat :=
  if (Utf8.encodeChars text).length ≠ 3 then .error (.badStatus (String.ofList text))
  else match Numeral.read 10 Numeral.bound16 text with
    | some n => .ok n
    | none => .error (.badStatus (String.ofList text))

/-- A response head from its lines. On the first, single spaces part the version, the status and
the reason, which may itself have spaces or be absent. -/
def ofLines : List (List Char) → Except HeadError ResponseHead
  | [] => .error .empty
  | line :: rest => match Text.cut ' ' line with
    | none => .error (.badStatusLine (String.ofList line))
    | some (version, tail) => do
      let (status, reason) := (Text.cut ' ' tail).getD (tail, [])
      let version ← Version.parse (String.ofList version)
      let status ← parseStatus status
      let fields ← Fields.ofLines rest
      return ⟨version, status, String.ofList (Text.trim reason), fields⟩

/-- Reads a response head. What stands after its first empty line is only required to be text. -/
def parse (input : Bytes) : Except HeadError ResponseHead :=
  match Utf8.decodeChars input with
  | .error _ => .error (.badStatusLine "Invalid UTF-8")
  | .ok text => ofLines (Text.lines text)

end ResponseHead

end HttpExchange
