/-!
JSON documents. A number is a natural number of 64 bits, a negative whole number of as many, or
else the nearest floating-point number. The members of an object have different names, in order.
-/

namespace HttpExchange

namespace Json

inductive Number where
  | natural (n : Nat)
  /-- The number below zero by `n`. -/
  | negative (n : Nat)
  | float (x : Float)

end Json

inductive Json where
  | null
  | bool (b : Bool)
  | number (n : Json.Number)
  | text (s : String)
  | array (elements : List Json)
  | object (members : List (String × Json))

namespace Json

/-- Puts a member in its place by name, instead of one with the same name. -/
def insertMember (name : String) (value : Json) : List (String × Json) → List (String × Json)
  | [] => [(name, value)]
  | member :: rest =>
    if name < member.1 then (name, value) :: member :: rest
    else if name = member.1 then (name, value) :: rest
    else member :: insertMember name value rest

/-- The object of members in any order; of members with one name the last counts. -/
def ofMembers (members : List (String × Json)) : Json :=
  object (members.foldl (fun sorted member => insertMember member.1 member.2 sorted) [])

def member? (name : String) : Json → Option Json
  | object members => members.lookup name
  | _ => none

end Json

end HttpExchange
