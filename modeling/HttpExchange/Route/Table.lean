import HttpExchange.Head.Method
import HttpExchange.Route.Template

/-!
Route tables. Routes are searched in the order of their registration, and the first one that fits
answers. Routes are registered one by one, and a table is built from all of them or not at all: the
first template that cannot be read is the error, and behind it nothing is registered.
-/

namespace HttpExchange

/-- A method and a template, with what they lead to. -/
structure Route (α : Type) where
  method : Method
  template : Template
  handler : α

/-- A registration, whose template has not been read yet. -/
structure Registration (α : Type) where
  method : Method
  template : String
  handler : α

/-- The routes of a server. -/
structure RouteTable (α : Type) where
  routes : List (Route α) := []

/-- A table that is being built: its routes so far, and the error that it failed with. -/
structure RouteBuilder (α : Type) where
  routes : List (Route α) := []
  error : Option RouteError := none

namespace RouteBuilder

variable {α : Type}

def register (b : RouteBuilder α) (r : Registration α) : RouteBuilder α :=
  match b.error with
  | some _ => b
  | none => match Template.parse r.template with
    | .ok template => { b with routes := b.routes ++ [⟨r.method, template, r.handler⟩] }
    | .error e => { b with error := some e }

def build (b : RouteBuilder α) : Except RouteError (RouteTable α) :=
  match b.error with
  | some e => .error e
  | none => .ok ⟨b.routes⟩

end RouteBuilder

namespace RouteTable

variable {α : Type}

def build (registrations : List (Registration α)) : Except RouteError (RouteTable α) :=
  (registrations.foldl RouteBuilder.register {}).build

def answer? (method : Method) (path : String) (route : Route α) :
    Option (α × List (String × String)) :=
  if route.method = method then
    (route.template.match? path).map fun parameters => (route.handler, parameters)
  else none

/-- The answer of the first route that fits, with the values of its parameters. -/
def find? (table : RouteTable α) (method : Method) (path : String) :
    Option (α × List (String × String)) :=
  table.routes.findSome? (answer? method path)

def size (table : RouteTable α) : Nat := table.routes.length

def isEmpty (table : RouteTable α) : Bool := table.routes.isEmpty

end RouteTable

end HttpExchange
