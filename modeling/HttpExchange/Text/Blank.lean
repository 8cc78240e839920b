/-!
White space, as the Unicode property of that name has it, and the two readings of a text that
depend on it: the text without blanks at its ends, and its words.
-/

namespace HttpExchange

/-- The characters with the Unicode property White_Space. -/
def isBlank (c : Char) : Bool :=
  let n := c.toNat
  (0x09 ≤ n && n ≤ 0x0D) || n == 0x20 || n == 0x85 || n == 0xA0 || n == 0x1680 ||
    (0x2000 ≤ n && n ≤ 0x200A) || n == 0x2028 || n == 0x2029 || n == 0x202F || n == 0x205F ||
    n == 0x3000

namespace Text

/-- A text without the blanks before its first and after its last other character. -/
def trim (cs : List Char) : List Char :=
  ((cs.dropWhile isBlank).reverse.dropWhile isBlank).reverse

def onto (c : Char) : List (List Char) → List (List Char)
  | [] => [[c]]
  | w :: ws => (c :: w) :: ws

def words : List Char → List (List Char)
  | [] => []
  | [c] => if isBlank c then [] else [[c]]
  | c :: d :: r =>
    if isBlank c then words (d :: r)
    else if isBlank d then [c] :: words (d :: r)
    else onto c (words (d :: r))

end Text

end HttpExchange
