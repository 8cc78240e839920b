import HttpExchange.Route.Error
import HttpExchange.Text.Split

/-!
Path templates. A template is a slash and segments parted by slashes; a segment is literal text
or a parameter, a name in braces, which stands for one segment of a path that is not empty.
Matching a path undoes the substitution of values into the template.
-/

namespace HttpExchange

/-- A piece of a template between slashes. -/
inductive Segment where
  | literal (text : String)
  | parameter (name : String)
  deriving DecidableEq, Repr

namespace Segment

/-- Whether a character is one of the two that mark parameters. -/
def isBrace (c : Char) : Bool := c == '\x7b' || c == '\x7d'

/-- What stands inside the braces of a piece that starts with one and ends with the other. -/
def inner? : List Char → Option (List Char)
  | c :: rest =>
    if c = '\x7b' ∧ rest.getLast? = some '\x7d' then some rest.dropLast else none
  | [] => none

/-- Reads a piece of `template`, the segments before it being known. -/
def parse (template : String) (before : List Segment) (piece : List Char) :
    Except RouteError Segment :=
  match inner? piece with
  | some [] => .error (.emptyParameter template)
  | some name =>
    if name.any isBrace then .error (.badSegment template (String.ofList piece))
    else if before.contains (.parameter (String.ofList name)) then
      .error (.duplicateParameter template (String.ofList name))
    else .ok (.parameter (String.ofList name))
  | none =>
    if piece.any isBrace then .error (.badSegment template (String.ofList piece))
    else .ok (.literal (String.ofList piece))

/-- The piece of a template that a segment was read from. -/
def write : Segment → List Char
  | literal text => text.toList
  | parameter name => '\x7b' :: name.toList ++ ['\x7d']

/-- The piece of a path that a segment stands for when parameters have values. -/
def fill (value : String → String) : Segment → List Char
  | literal text => text.toList
  | parameter name => (value name).toList

def name? : Segment → Option String
  | parameter name => some name
  | literal _ => none

end Segment

/-- A template that has been read, with its text. -/
structure Template where
  text : String
  segments : List Segment
  deriving DecidableEq, Repr

namespace Template

/-- Reads the pieces of a template after the segments that are known, the last first. -/
def parseOnto (template : String) (before : List Segment) :
    List (List Char) → Except RouteError (List Segment)
  | [] => .ok before.reverse
  | piece :: rest => match Segment.parse template before piece with
    | .error e => .error e
    | .ok segment => parseOnto template (segment :: before) rest

/-- Reads a template. Parameters have different names. -/
def parse (template : String) : Except RouteError Template :=
  match template.toList with
  | '/' :: rest =>
    (parseOnto template [] (Text.splitOn '/' rest)).map fun segments => ⟨template, segments⟩
  | _ => .error (.missingSlash template)

variable (t : Template)

/-- The names of the parameters, in the order of the template. -/
def parameters : List String := t.segments.filterMap Segment.name?

/-- The path that a template stands for when its parameters have values. -/
def substitute (value : String → String) : String :=
  String.ofList ('/' :: Text.join '/' (t.segments.map (Segment.fill value)))

/-- Matches segments with the pieces of a path, one with one. -/
def matchSegments : List Segment → List (List Char) → Option (List (String × String))
  | [], [] => some []
  | .literal text :: segments, piece :: pieces =>
    if text.toList = piece then matchSegments segments pieces else none
  | .parameter name :: segments, piece :: pieces =>
    if piece.isEmpty then none
    else (matchSegments segments pieces).map ((name, String.ofList piece) :: ·)
  | _, _ => none

/-- The values of the parameters for which the template stands for this path. -/
def match? (path : String) : Option (List (String × String)) :=
  match path.toList with
  | '/' :: rest => matchSegments t.segments (Text.splitOn '/' rest)
  | _ => none

end Template

end HttpExchange
