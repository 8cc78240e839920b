import HttpExchange.Head.Error
import HttpExchange.Text.Blank
import HttpExchange.Text.Fold
import HttpExchange.Text.Split

/-!
Header fields. A field has a name, compared without regard to case, and a value. Lines that repeat
a name are folded into one field, which keeps the first spelling and lists the values; the
content length alone may be repeated only as the same text.
-/

namespace HttpExchange

/-- Names with their values, in the order in which the names first came. -/
abbrev Fields := List (String × String)

namespace Fields

/-- The value of the field with this name, in any spelling. -/
def find? (fields : Fields) (name : String) : Option String :=
  (List.find? (fun field => sameName field.1 name) fields).map Prod.snd

/-- Whether there is a field with this name, in any spelling. -/
def has (fields : Fields) (name : String) : Bool := (fields.find? name).isSome

/-- Gives a value to a name in exactly this spelling, in place of its earlier value. -/
def insert (fields : Fields) (name value : String) : Fields :=
  match fields with
  | [] => [(name, value)]
  | field :: rest =>
    if field.1 = name then (name, value) :: rest else field :: insert rest name value

def contentLength : String := "Content-Length"

/-- The field that names the encodings of a body on the wire. -/
def transferEncoding : String := "Transfer-Encoding"

/-- The field that says whether the connection stays open. -/
def connection : String := "Connection"

/-- The fields that a writer derives from the body and the connection, and takes from nobody. -/
def reserved : List String := [contentLength, transferEncoding, connection]

/-- Whether a name is one of the derived ones, in any spelling. -/
def isReserved (name : String) : Bool := reserved.any fun r => sameName r name

def fold (fields : Fields) (name value : String) : Except HeadError Fields :=
  match fields with
  | [] => .ok [(name, value)]
  | field :: rest =>
    if sameName field.1 name then
      if sameName name contentLength then
        if field.2 = value then .ok (field :: rest) else .error .badField
      else .ok ((field.1, field.2 ++ ", " ++ value) :: rest)
    else (fold rest name value).map (field :: ·)

/-- Name and value of a line, without the blanks around them. -/
def splitLine (line : List Char) : Except HeadError (String × String) :=
  match Text.cut ':' line with
  | none => .error .badField
  | some (name, value) =>
    let name := Text.trim name
    if name.isEmpty then .error .badField
    else .ok (String.ofList name, String.ofList (Text.trim value))

/-- Adds lines to the fields before them, up to the first empty line. -/
def foldLines (fields : Fields) : List (List Char) → Except HeadError Fields
  | [] => .ok fields
  | line :: rest =>
    if line.isEmpty then .ok fields
    else match splitLine line with
      | .error e => .error e
      | .ok (name, value) => match fold fields name value with
        | .error e => .error e
        | .ok fields => foldLines fields rest

/-- The fields of the lines before the first empty one. -/
def ofLines (lines : List (List Char)) : Except HeadError Fields := foldLines [] lines

def writeLine (name value : String) : String := name ++ ": " ++ value ++ "\r\n"

end Fields

end HttpExchange
