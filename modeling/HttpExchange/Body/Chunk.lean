import HttpExchange.Text.Blank
import HttpExchange.Text.Numeral
import HttpExchange.Text.Utf8
import HttpExchange.Wire.Error

/-!
Chunks of a body as they are written and as their sizes are read. A chunk is its size in
hexadecimal on a line, its bytes, and a line end; a chunk of size zero and a blank line end the
body. A size that is read may be followed by an extension, which is ignored.
-/

namespace HttpExchange.Chunk

def sizeLine (size : Nat) : Bytes := Utf8.encodeChars (Numeral.write 16 size) ++ Bytes.crlf

def frame (data : Bytes) : Bytes := sizeLine data.length ++ data ++ Bytes.crlf

def terminator : Bytes := sizeLine 0 ++ Bytes.crlf

/-- The most bytes that the numeral of a size may have. -/
def maxSizeDigits : Nat := 16

/-- The size that a line names: what stands before the first semicolon, without blanks around. -/
def parseSize (line : Bytes) : Except ChunkFault Nat :=
  match Utf8.decodeChars (line.takeWhile fun b => b ≠ 0x3B) with
  | .error _ => .error .sizeNotText
  | .ok text =>
    let numeral := Text.trim text
    let bad := ChunkFault.badSize (String.ofList numeral)
    if numeral.isEmpty || maxSizeDigits < (Utf8.encodeChars numeral).length then .error bad
    else match Numeral.read 16 Numeral.bound64 numeral with
      | some n => .ok n
      | none => .error bad

end HttpExchange.Chunk
