import HttpExchange.Head.Error

/-!
Request methods. Each has one token, in capitals, and no other token is read.
-/

namespace HttpExchange

inductive Method where
  | get | post | put | delete | head | options | patch
  deriving DecidableEq, Repr

namespace Method

def all : List Method := [get, post, put, delete, head, options, patch]

def token : Method → String
  | get => "GET"
  | post => "POST"
  | put => "PUT"
  | delete => "DELETE"
  | head => "HEAD"
  | options => "OPTIONS"
  | patch => "PATCH"

def ofToken? (text : String) : Option Method := all.find? fun m => m.token == text

/-- The method with a given token, or the fault that there is none. -/
def parse (text : String) : Except HeadError Method :=
  match ofToken? text with
  | some m => .ok m
  | none => .error (.unknownMethod text)

theorem ofToken?_token (m : Method) : ofToken? m.token = some m := by
  cases m <;> simp [ofToken?, all, token]

theorem token_of_ofToken? {text : String} {m : Method} (found : ofToken? text = some m) :
    m.token = text := by
  simpa using List.find?_some found

theorem ofToken?_eq_some_iff {text : String} {m : Method} :
    ofToken? text = some m ↔ text = m.token :=
  ⟨fun found => (token_of_ofToken? found).symm, fun eq => eq ▸ ofToken?_token m⟩

end Method

end HttpExchange
