/-!
Cutting a text at a character: into all its pieces, into the part before and the part after the
first occurrence, or into lines. Every piece is a run of the text, in order.
-/

namespace HttpExchange.Text

/-- The pieces between the occurrences of `sep`; a text without one is its only piece. -/
def splitOn (sep : Char) : List Char → List (List Char)
  | [] => [[]]
  | c :: r =>
    if c = sep then [] :: splitOn sep r
    else match splitOn sep r with
      | [] => [[c]]
      | p :: ps => (c :: p) :: ps

def join (sep : Char) : List (List Char) → List Char
  | [] => []
  | [p] => p
  | p :: q :: ps => p ++ sep :: join sep (q :: ps)

/-- What stands before and after the first `sep`, if there is one. -/
def cut (sep : Char) : List Char → Option (List Char × List Char)
  | [] => none
  | c :: r => if c = sep then some ([], r) else (cut sep r).map fun (p, q) => (c :: p, q)

/-- The lines of a text. A line ends with a line feed, which a carriage return may precede;
the last line may do without. -/
def lines : List Char → List (List Char)
  | [] => []
  | '\n' :: r => [] :: lines r
  | '\r' :: '\n' :: r => [] :: lines r
  | c :: r => match lines r with
    | [] => [[c]]
    | l :: ls => (c :: l) :: ls

end HttpExchange.Text
