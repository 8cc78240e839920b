/-!
The bytes that travel on a connection. A body, a head and every read or write is a list of
bytes; the two that end a line have names.
-/

namespace HttpExchange

/-- A finite run of bytes, in the order in which they travel. -/
abbrev Bytes := List UInt8

namespace Bytes

def lf : UInt8 := 10

/-- Carriage return, which may stand before the line feed. -/
def cr : UInt8 := 13

def crlf : Bytes := [cr, lf]

/-- Order by the first byte that differs; a proper beginning comes first. -/
def le : Bytes → Bytes → Bool
  | [], _ => true
  | _ :: _, [] => false
  | a :: s, b :: t => if a == b then le s t else a < b

end Bytes

end HttpExchange
