/-!
What can be wrong with a path template.
-/

namespace HttpExchange

inductive RouteError where
  | missingSlash (template : String)
  | emptyParameter (template : String)
  | badSegment (template segment : String)
  | duplicateParameter (template name : String)
  deriving DecidableEq, Repr

def RouteError.message : RouteError → String
  | .missingSlash template => "Path template must start with '/': " ++ template
  | .emptyParameter template => "Empty parameter name in template: " ++ template
  | .badSegment template segment =>
    "Invalid segment '" ++ segment ++ "' in template: " ++ template
  | .duplicateParameter template name =>
    "Duplicate parameter '" ++ name ++ "' in template: " ++ template

end HttpExchange
