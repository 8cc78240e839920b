import HttpExchange.Json.Shortest
import HttpExchange.Json.Value
import HttpExchange.Text.Utf8

/-!
Documents written without blanks. A text escapes the quote, the backslash and control characters,
and nothing else. A floating-point number has the fewest digits that read back; it is positional
while its point stands at most sixteen digits to the right or five to the left, and always shows
a point or an exponent.
-/

namespace HttpExchange.Json

def hexDigit (n : Nat) : Char := if n < 10 then Char.ofNat (48 + n) else Char.ofNat (87 + n)

def escape (c : Char) : List Char :=
  if c = '"' then ['\\', '"']
  else if c = '\\' then ['\\', '\\']
  else if c = '\n' then ['\\', 'n']
  else if c = '\r' then ['\\', 'r']
  else if c = '\t' then ['\\', 't']
  else if c.toNat = 8 then ['\\', 'b']
  else if c.toNat = 12 then ['\\', 'f']
  else if c.toNat < 32 then
    ['\\', 'u', '0', '0', hexDigit (c.toNat / 16), hexDigit (c.toNat % 16)]
  else [c]

def quote (s : String) : List Char := '"' :: s.toList.flatMap escape ++ ['"']

def writeExponent (n : Int) : List Char :=
  'e' :: (if n < 0 then '-' else '+') :: Numeral.write 10 n.natAbs

/-- Digits that are worth `10 ^ exponent` each at the right end. -/
def writeDecimal (digits : Nat) (exponent : Int) : List Char :=
  let ds := Numeral.write 10 digits
  let point : Int := ds.length + exponent
  if 0 ≤ exponent ∧ point ≤ 16 then ds ++ List.replicate exponent.toNat '0' ++ ['.', '0']
  else if 0 < point ∧ point ≤ 16 then ds.take point.toNat ++ '.' :: ds.drop point.toNat
  else if -5 < point ∧ point ≤ 0 then
    '0' :: '.' :: List.replicate (-point).toNat '0' ++ ds
  else if ds.length = 1 then ds ++ writeExponent (point - 1)
  else ds.take 1 ++ '.' :: ds.drop 1 ++ writeExponent (point - 1)

def writeFloat (x : Float) : List Char :=
  let bits := x.toBits
  let sign := if bits >>> 63 = 1 then ['-'] else []
  let size := bits % 0x8000000000000000
  if size = 0 then sign ++ ['0', '.', '0']
  else
    let (digits, exponent) := Shortest.digits size
    sign ++ writeDecimal digits exponent

def Number.write : Number → List Char
  | natural n => Numeral.write 10 n
  | negative n => '-' :: Numeral.write 10 n
  | float x => writeFloat x

mutual

def writeOnto (tail : List Char) : Json → List Char
  | null => 'n' :: 'u' :: 'l' :: 'l' :: tail
  | bool true => 't' :: 'r' :: 'u' :: 'e' :: tail
  | bool false => 'f' :: 'a' :: 'l' :: 's' :: 'e' :: tail
  | number n => n.write ++ tail
  | text s => quote s ++ tail
  | array [] => '[' :: ']' :: tail
  | array (v :: rest) => '[' :: writeOnto (writeElements tail rest) v
  | object [] => '\x7b' :: '\x7d' :: tail
  | object ((name, v) :: rest) =>
    '\x7b' :: quote name ++ ':' :: writeOnto (writeMembers tail rest) v

def writeElements (tail : List Char) : List Json → List Char
  | [] => ']' :: tail
  | v :: rest => ',' :: writeOnto (writeElements tail rest) v

def writeMembers (tail : List Char) : List (String × Json) → List Char
  | [] => '\x7d' :: tail
  | (name, v) :: rest => ',' :: quote name ++ ':' :: writeOnto (writeMembers tail rest) v

end

def write (v : Json) : String := String.ofList (writeOnto [] v)

def encode (v : Json) : Bytes := Utf8.encodeChars (writeOnto [] v)

end HttpExchange.Json
