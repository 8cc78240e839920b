import HttpExchange.Json.Value
import HttpExchange.Text.Utf8

/-!
Documents read from bytes. Reading is strict: no blanks but the four of the format, no comments,
no trailing commas, nothing behind the document; arrays and objects nest less than 128 deep.
A number with more digits than fit, or a fraction or an exponent, becomes a floating-point number
by one multiplication or division with a power of ten.

A record of named texts is read without building its other members: those are only checked for
their form, at any depth.
-/

namespace HttpExchange.Json

def isSpace (b : UInt8) : Bool := b == 0x20 || b == 0x09 || b == 0x0A || b == 0x0D

def skipSpace (s : Bytes) : Bytes := s.dropWhile isSpace

def isDigit (b : UInt8) : Bool := 0x30 ≤ b && b ≤ 0x39

def digitValue (b : UInt8) : Nat := b.toNat - 0x30

def hexValue (b : UInt8) : Option Nat :=
  if isDigit b then some (digitValue b)
  else if 0x41 ≤ b ∧ b ≤ 0x46 then some (b.toNat - 55)
  else if 0x61 ≤ b ∧ b ≤ 0x66 then some (b.toNat - 87)
  else none

def hex4 (a b c d : UInt8) : Option Nat := do
  let a ← hexValue a
  let b ← hexValue b
  let c ← hexValue c
  let d ← hexValue d
  return ((a * 16 + b) * 16 + c) * 16 + d

def escaped (b : UInt8) : Option UInt8 :=
  if b = 0x22 ∨ b = 0x5C ∨ b = 0x2F then some b
  else if b = 0x62 then some 8
  else if b = 0x66 then some 12
  else if b = 0x6E then some 10
  else if b = 0x72 then some 13
  else if b = 0x74 then some 9
  else none

/-- Puts the bytes of a character onto bytes that are kept in reverse. -/
def ontoReversed (n : Nat) (before : Bytes) : Bytes :=
  (Utf8.encodeChar (Char.ofNat n)).reverse ++ before

/-- Reads the rest of a quoted text, onto the bytes before it in reverse. Escapes of the two halves
of a character outside the basic plane have to come as a pair. -/
def quotedOnto (before : Bytes) : Bytes → Option (Bytes × Bytes)
  | [] => none
  | 0x22 :: r => some (before.reverse, r)
  | 0x5C :: 0x75 :: a :: b :: c :: d :: r => match hex4 a b c d with
    | none => none
    | some n =>
      if 0xDC00 ≤ n ∧ n ≤ 0xDFFF then none
      else if 0xD800 ≤ n ∧ n < 0xDC00 then match r with
        | 0x5C :: 0x75 :: e :: f :: g :: h :: r' => match hex4 e f g h with
          | some m =>
            if 0xDC00 ≤ m ∧ m ≤ 0xDFFF then
              quotedOnto (ontoReversed (0x10000 + (n - 0xD800) * 0x400 + (m - 0xDC00)) before) r'
            else none
          | none => none
        | _ => none
      else quotedOnto (ontoReversed n before) r
  | 0x5C :: b :: r => match escaped b with
    | some b => quotedOnto (b :: before) r
    | none => none
  | b :: r => if b < 0x20 ∨ b = 0x5C then none else quotedOnto (b :: before) r

def quoted (s : Bytes) : Option (String × Bytes) :=
  match quotedOnto [] s with
  | some (bytes, r) => match Utf8.decode bytes with
    | .ok t => some (t, r)
    | .error _ => none
  | none => none

/-- The powers of ten that are used to scale, rounded to nearest. -/
def power10 (n : Nat) : Float := Float.ofScientific 1 false n

/-- `significand * 10 ^ exponent`, by as few roundings as the size of the exponent allows;
none if it is too large. -/
def scale : (fuel : Nat) → Float → Int → Option Float
  | 0, x, _ => some x
  | fuel + 1, x, exponent =>
    if exponent.natAbs ≤ 308 then
      if 0 ≤ exponent then
        let y := x * power10 exponent.natAbs
        if y.isInf then none else some y
      else some (x / power10 exponent.natAbs)
    else if x == 0 then some x
    else if 0 ≤ exponent then none
    else scale fuel (x / power10 308) (exponent + 308)

def floatOf (positive : Bool) (significand : Nat) (exponent : Int) : Option Number :=
  (scale (exponent.natAbs / 308 + 2) significand.toUInt64.toFloat exponent).map fun x =>
    .float (if positive then x else -x)

def maxSignificand : Nat := 0xFFFFFFFFFFFFFFFF

def maxExponent : Nat := 0x7FFFFFFF

/-- The number that digits of an exponent continue; none once it is too large. -/
def exponentOnto (high : Nat) : Bytes → Option Nat × Bytes
  | [] => (some high, [])
  | b :: r =>
    if isDigit b then
      if maxExponent < high * 10 + digitValue b then (none, r.dropWhile isDigit)
      else exponentOnto (high * 10 + digitValue b) r
    else (some high, b :: r)

def readExponent (positive : Bool) (significand : Nat) (start : Int) (s : Bytes) :
    Option (Number × Bytes) :=
  let (up, digits) := match s with
    | 0x2B :: r => (true, r)
    | 0x2D :: r => (false, r)
    | r => (true, r)
  match digits with
  | [] => none
  | b :: _ =>
    if !isDigit b then none
    else match exponentOnto 0 digits with
      | (some n, r) =>
        (floatOf positive significand (if up then start + n else start - n)).map fun x => (x, r)
      | (none, r) =>
        if significand ≠ 0 ∧ up then none
        else some (.float (if positive then 0 else -0), r)

/-- Reads an exponent, if one follows, behind a number that is no whole number of its own. -/
def readTail (positive : Bool) (significand : Nat) (exponent : Int) (s : Bytes) :
    Option (Number × Bytes) :=
  match s with
  | 0x65 :: r | 0x45 :: r => readExponent positive significand exponent r
  | r => (floatOf positive significand exponent).map fun x => (x, r)

/-- Reads the digits of a fraction. Digits beyond the largest significand are dropped. -/
def readFraction (positive : Bool) (significand : Nat) (exponent : Int) :
    Bytes → Option (Number × Bytes)
  | [] => readTail positive significand exponent []
  | b :: r =>
    if isDigit b then
      if maxSignificand < significand * 10 + digitValue b then
        readTail positive significand exponent (r.dropWhile isDigit)
      else readFraction positive (significand * 10 + digitValue b) (exponent - 1) r
    else readTail positive significand exponent (b :: r)

/-- Reads what may follow the whole part of a number that is a floating-point one already. -/
def readLong (positive : Bool) (significand dropped : Nat) (s : Bytes) :
    Option (Number × Bytes) :=
  match s with
  | 0x2E :: b :: r =>
    if isDigit b then readFraction positive significand dropped (b :: r) else none
  | 0x2E :: [] => none
  | r => readTail positive significand dropped r

def readShort (positive : Bool) (significand : Nat) (s : Bytes) : Option (Number × Bytes) :=
  match s with
  | 0x2E :: _ | 0x65 :: _ | 0x45 :: _ => readLong positive significand 0 s
  | r =>
    if positive then some (.natural significand, r)
    else if significand = 0 ∨ 0x8000000000000000 < significand then
      some (.float (-significand.toUInt64.toFloat), r)
    else some (.negative significand, r)

def readWhole (positive : Bool) (significand : Nat) : Bytes → Option (Number × Bytes)
  | [] => readShort positive significand []
  | b :: r =>
    if isDigit b then
      if maxSignificand < significand * 10 + digitValue b then
        let digits := (b :: r).takeWhile isDigit
        readLong positive significand digits.length ((b :: r).dropWhile isDigit)
      else readWhole positive (significand * 10 + digitValue b) r
    else readShort positive significand (b :: r)

/-- Reads a number behind its sign. A leading zero stands alone. -/
def readNumber (positive : Bool) : Bytes → Option (Number × Bytes)
  | [] => none
  | b :: r =>
    if b = 0x30 then match r with
      | d :: _ => if isDigit d then none else readShort positive 0 r
      | [] => readShort positive 0 []
    else if isDigit b then readWhole positive (digitValue b) r
    else none

/-- Whether bytes start with a word, and what follows it. -/
def afterWord (word : String) (s : Bytes) : Option Bytes :=
  let w := Utf8.encode word
  if w.isPrefixOf s then some (s.drop w.length) else none

def readScalar (s : Bytes) : Option (Json × Bytes) :=
  match s with
  | [] => none
  | b :: r =>
    if b = 0x22 then (quoted r).map fun (t, r) => (.text t, r)
    else if b = 0x2D then (readNumber false r).map fun (n, r) => (.number n, r)
    else if isDigit b then (readNumber true s).map fun (n, r) => (.number n, r)
    else if b = 0x6E then (afterWord "null" s).map fun r => (.null, r)
    else if b = 0x74 then (afterWord "true" s).map fun r => (.bool true, r)
    else if b = 0x66 then (afterWord "false" s).map fun r => (.bool false, r)
    else none

/-- Reads the name of a member and the colon behind it. -/
def readName (s : Bytes) : Option (String × Bytes) :=
  match skipSpace s with
  | 0x22 :: r => match quoted r with
    | some (name, r) => match skipSpace r with
      | 0x3A :: r => some (name, r)
      | _ => none
    | none => none
  | _ => none

mutual

/-- Reads a document that may nest up to `depth`. The fuel bounds the number of parts. -/
def readValue : (fuel depth : Nat) → Bytes → Option (Json × Bytes)
  | 0, _, _ => none
  | fuel + 1, depth, s => match skipSpace s with
    | 0x5B :: r =>
      if depth ≤ 1 then none
      else match skipSpace r with
        | 0x5D :: r => some (.array [], r)
        | r => readElements fuel (depth - 1) [] r
    | 0x7B :: r =>
      if depth ≤ 1 then none
      else match skipSpace r with
        | 0x7D :: r => some (.object [], r)
        | r => readMembers fuel (depth - 1) [] r
    | r => readScalar r

/-- Reads an element and those after it, onto the elements before it in reverse. -/
def readElements : (fuel depth : Nat) → List Json → Bytes → Option (Json × Bytes)
  | 0, _, _, _ => none
  | fuel + 1, depth, before, s => match readValue fuel depth s with
    | none => none
    | some (v, r) => match skipSpace r with
      | 0x2C :: r => readElements fuel depth (v :: before) r
      | 0x5D :: r => some (.array (v :: before).reverse, r)
      | _ => none

/-- Reads a member and those after it, onto the members before it. -/
def readMembers : (fuel depth : Nat) → List (String × Json) → Bytes → Option (Json × Bytes)
  | 0, _, _, _ => none
  | fuel + 1, depth, before, s => match readName s with
    | none => none
    | some (name, r) => match readValue fuel depth r with
      | none => none
      | some (v, r) => match skipSpace r with
        | 0x2C :: r => readMembers fuel depth (insertMember name v before) r
        | 0x7D :: r => some (.object (insertMember name v before), r)
        | _ => none

end

/-- The number of levels that a document has to stay below. -/
def maxDepth : Nat := 128

/-- The document that bytes stand for, if they are one. -/
def decode (s : Bytes) : Option Json :=
  match readValue (2 * s.length + 2) maxDepth s with
  | some (v, r) => if (skipSpace r).isEmpty then some v else none
  | none => none

/-- Passes a quoted text, behind its opening quote, without reading it. -/
def passQuoted : Bytes → Option Bytes
  | [] => none
  | 0x22 :: r => some r
  | 0x5C :: 0x75 :: a :: b :: c :: d :: r =>
    if (hex4 a b c d).isSome then passQuoted r else none
  | 0x5C :: b :: r => if (escaped b).isSome then passQuoted r else none
  | b :: r => if b < 0x20 ∨ b = 0x5C then none else passQuoted r

def passDigits : Bytes → Option Bytes
  | [] => none
  | b :: r => if isDigit b then some (r.dropWhile isDigit) else none

def passExponent (s : Bytes) : Option Bytes :=
  match s with
  | 0x65 :: r | 0x45 :: r => match r with
    | 0x2B :: r | 0x2D :: r => passDigits r
    | r => passDigits r
  | r => some r

def passNumber : Bytes → Option Bytes
  | [] => none
  | b :: r =>
    if !isDigit b then none
    else
      let r' := if b = 0x30 then r else r.dropWhile isDigit
      match r' with
      | 0x2E :: r => match passDigits r with
        | some r => passExponent r
        | none => none
      | d :: _ => if isDigit d then none else passExponent r'
      | [] => some []

def passScalar (s : Bytes) : Option Bytes :=
  match s with
  | [] => none
  | b :: r =>
    if b = 0x22 then passQuoted r
    else if b = 0x2D then passNumber r
    else if isDigit b then passNumber s
    else if b = 0x6E then afterWord "null" s
    else if b = 0x74 then afterWord "true" s
    else if b = 0x66 then afterWord "false" s
    else none

/-- An array or an object that is still open. -/
inductive Frame where
  | array | object

/-- Passes the name of a member and the colon behind it. -/
def passName (s : Bytes) : Option Bytes :=
  match skipSpace s with
  | 0x22 :: r => match passQuoted r with
    | some r => match skipSpace r with
      | 0x3A :: r => some r
      | _ => none
    | none => none
  | _ => none

/-- What is to be passed next. -/
inductive Passing where
  /-- A document. -/
  | value
  /-- What follows a document. -/
  | after
  /-- The first part of the innermost frame, or its end. -/
  | first

/-- Passes documents, with the open frames, the innermost first. The fuel bounds the number of
parts. -/
def pass : (fuel : Nat) → Passing → List Frame → Bytes → Option Bytes
  | 0, _, _, _ => none
  | fuel + 1, .value, frames, s => match skipSpace s with
    | 0x5B :: r => pass fuel .first (.array :: frames) r
    | 0x7B :: r => pass fuel .first (.object :: frames) r
    | r => match passScalar r with
      | some r => pass fuel .after frames r
      | none => none
  | _ + 1, .after, [], s => some s
  | fuel + 1, .after, .array :: frames, s => match skipSpace s with
    | 0x2C :: r => pass fuel .value (.array :: frames) r
    | 0x5D :: r => pass fuel .after frames r
    | _ => none
  | fuel + 1, .after, .object :: frames, s => match skipSpace s with
    | 0x2C :: r => match passName r with
      | some r => pass fuel .value (.object :: frames) r
      | none => none
    | 0x7D :: r => pass fuel .after frames r
    | _ => none
  | _ + 1, .first, [], _ => none
  | fuel + 1, .first, .array :: frames, s => match skipSpace s with
    | 0x5D :: r => pass fuel .after frames r
    | r => pass fuel .value (.array :: frames) r
  | fuel + 1, .first, .object :: frames, s => match skipSpace s with
    | 0x7D :: r => pass fuel .after frames r
    | r => match passName r with
      | some r => pass fuel .value (.object :: frames) r
      | none => none

def readText (s : Bytes) : Option (String × Bytes) :=
  match skipSpace s with
  | 0x22 :: r => quoted r
  | _ => none

/-- Reads the members of a record of texts. Each name may come once; members with other names
are passed. -/
def readRecord (names : List String) : (fuel : Nat) → List (String × String) → Bytes →
    Option (List (String × String) × Bytes)
  | 0, _, _ => none
  | fuel + 1, found, s => match readName s with
    | none => none
    | some (name, r) =>
      let next := if names.contains name then
          if (found.lookup name).isSome then none
          else (readText r).map fun (t, r) => (found ++ [(name, t)], r)
        else (pass (2 * r.length + 2) .value [] r).map fun r => (found, r)
      match next with
      | none => none
      | some (found, r) => match skipSpace r with
        | 0x2C :: r => readRecord names fuel found r
        | 0x7D :: r => some (found, r)
        | _ => none

/-- Reads texts, one after another with commas between, and the end of the array. -/
def readRow : (count : Nat) → List String → Bytes → Option (List String × Bytes)
  | 0, _, _ => none
  | count + 1, before, s => match readText s with
    | none => none
    | some (t, r) => match count, skipSpace r with
      | 0, 0x5D :: r => some ((t :: before).reverse, r)
      | _ + 1, 0x2C :: r => readRow count (t :: before) r
      | _, _ => none

/-- The texts of a record with these names, in their order. The bytes are an object with a text
for each name, or an array of just these texts. -/
def decodeRecord (names : List String) (s : Bytes) : Option (List String) :=
  let read : Option (List String × Bytes) := match skipSpace s with
    | 0x7B :: r => match skipSpace r with
      | 0x7D :: r => if names.isEmpty then some ([], r) else none
      | r => match readRecord names (r.length + 1) [] r with
        | some (found, r) => (names.mapM fun name => found.lookup name).map fun ts => (ts, r)
        | none => none
    | 0x5B :: r => readRow names.length [] r
    | _ => none
  match read with
  | some (texts, r) => if (skipSpace r).isEmpty then some texts else none
  | none => none

end HttpExchange.Json
