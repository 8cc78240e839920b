import HttpExchange.Bytes

/-!
UTF-8: the bytes of a text, and the text of bytes. A first byte fixes the length of a character
and the range of its second byte; every later byte is a continuation. Reading reports where the
text goes wrong, and whether it is wrong or only cut short.
-/

namespace HttpExchange.Utf8

def encodeChar (c : Char) : Bytes :=
  let n := c.toNat
  if n < 0x80 then [n.toUInt8]
  else if n < 0x800 then [(0xC0 + n / 0x40).toUInt8, (0x80 + n % 0x40).toUInt8]
  else if n < 0x10000 then
    [(0xE0 + n / 0x1000).toUInt8, (0x80 + n / 0x40 % 0x40).toUInt8, (0x80 + n % 0x40).toUInt8]
  else
    [(0xF0 + n / 0x40000).toUInt8, (0x80 + n / 0x1000 % 0x40).toUInt8,
      (0x80 + n / 0x40 % 0x40).toUInt8, (0x80 + n % 0x40).toUInt8]

def encodeChars (cs : List Char) : Bytes := cs.flatMap encodeChar

def encode (s : String) : Bytes := encodeChars s.toList

/-- Where bytes stop being text: a run that no character starts with, or an end of input in
the middle of a character. -/
inductive Fault where
  | invalid (index length : Nat)
  | incomplete (index : Nat)
  deriving DecidableEq, Repr

def Fault.message : Fault → String
  | .invalid index length =>
    s!"invalid utf-8 sequence of {length} bytes from index {index}"
  | .incomplete index => s!"incomplete utf-8 byte sequence from index {index}"

/-- The continuation bytes that a first byte asks for, with the range of the first of them;
none for a byte that starts no character. A one-byte character asks for none. -/
def lead (b : UInt8) : Option (Nat × UInt8 × UInt8) :=
  if b < 0x80 then some (0, 0, 0)
  else if b < 0xC2 then none
  else if b < 0xE0 then some (1, 0x80, 0xBF)
  else if b = 0xE0 then some (2, 0xA0, 0xBF)
  else if b = 0xED then some (2, 0x80, 0x9F)
  else if b < 0xF0 then some (2, 0x80, 0xBF)
  else if b = 0xF0 then some (3, 0x90, 0xBF)
  else if b < 0xF4 then some (3, 0x80, 0xBF)
  else if b = 0xF4 then some (3, 0x80, 0x8F)
  else none

/-- The bits of a first byte that belong to the character, by the number of continuations. -/
def leadBits (more : Nat) (b : UInt8) : Nat :=
  match more with
  | 0 => b.toNat
  | 1 => b.toNat - 0xC0
  | 2 => b.toNat - 0xE0
  | _ => b.toNat - 0xF0

/-- Takes `more` continuation bytes onto the bits read so far; `taken` counts the bytes of the
character already read. An error says how many bytes are wrong, or that the input ended. -/
def continuation : (more : Nat) → (low high : UInt8) → (taken bits : Nat) → Bytes →
    Except (Option Nat) (Nat × Bytes)
  | 0, _, _, _, bits, rest => .ok (bits, rest)
  | _ + 1, _, _, _, _, [] => .error none
  | more + 1, low, high, taken, bits, b :: rest =>
    if low ≤ b ∧ b ≤ high then
      continuation more 0x80 0xBF (taken + 1) (bits * 0x40 + (b.toNat - 0x80)) rest
    else .error (some taken)

/-- The first character of some bytes, and what follows it. -/
def decodeChar (b : UInt8) (rest : Bytes) : Except (Option Nat) (Char × Bytes) :=
  match lead b with
  | none => .error (some 1)
  | some (more, low, high) =>
    (continuation more low high 1 (leadBits more b) rest).map fun (n, rest) => (Char.ofNat n, rest)

theorem continuation_length_le {more low high taken bits rest n tail}
    (read : continuation more low high taken bits rest = .ok (n, tail)) :
    tail.length ≤ rest.length := by
  induction more generalizing low high taken bits rest with
  | zero => simp only [continuation, Except.ok.injEq, Prod.mk.injEq] at read; simp [read.2]
  | succ more ih =>
    cases rest with
    | nil => simp [continuation] at read
    | cons b rest =>
      simp only [continuation] at read
      split at read
      · exact Nat.le_succ_of_le (ih read)
      · simp at read

theorem decodeChar_length_le {b rest c tail} (read : decodeChar b rest = .ok (c, tail)) :
    tail.length ≤ rest.length := by
  unfold decodeChar at read
  split at read
  · simp at read
  · next more low high _ =>
    cases part : continuation more low high 1 (leadBits more b) rest with
    | error e => simp [part, Except.map] at read
    | ok pair =>
      obtain ⟨n, rest'⟩ := pair
      simp only [part, Except.map, Except.ok.injEq, Prod.mk.injEq] at read
      rw [← read.2]
      exact continuation_length_le part

/-- Reads characters to the end, onto those already read in reverse; `index` counts the bytes
before the rest. -/
def decodeOnto (index : Nat) (before : List Char) (input : Bytes) : Except Fault (List Char) :=
  match input with
  | [] => .ok before.reverse
  | b :: rest =>
    match _read : decodeChar b rest with
    | .error none => .error (.incomplete index)
    | .error (some length) => .error (.invalid index length)
    | .ok (c, tail) => decodeOnto (index + (encodeChar c).length) (c :: before) tail
termination_by input.length
decreasing_by
  have := decodeChar_length_le _read
  simp only [List.length_cons]
  omega

/-- The characters that bytes stand for, or where they stop being text. -/
def decodeChars (input : Bytes) : Except Fault (List Char) := decodeOnto 0 [] input

/-- The text that bytes stand for, or where they stop being text. -/
def decode (input : Bytes) : Except Fault String := (decodeChars input).map String.ofList

end HttpExchange.Utf8
