import HttpExchange.Text.Fold
import HttpExchange.Text.Numeral
import HttpExchange.Text.Split

/-!
Addresses of servers: a machine and a port. A machine has four bytes, or eight groups of sixteen
bits with the zone in which they hold. Several texts stand for one address; one of them is written,
with the first of the longest runs of zero groups left out.
-/

namespace HttpExchange

inductive Machine where
  | v4 (a b c d : UInt8)
  | v6 (groups : Vector UInt16 8) (zone : UInt32)
  deriving DecidableEq, Repr

structure Address where
  machine : Machine
  port : UInt16
  deriving DecidableEq, Repr

namespace Machine

/-- A byte in decimal. It has no leading zero. -/
def readByte (cs : List Char) : Option UInt8 :=
  if 1 < cs.length ∧ cs.head? = some '0' then none
  else (Numeral.readDigits 10 256 cs).map Nat.toUInt8

def readBytes (cs : List Char) : Option (UInt8 × UInt8 × UInt8 × UInt8) :=
  match (Text.splitOn '.' cs).mapM readByte with
  | some [a, b, c, d] => some (a, b, c, d)
  | _ => none

def readGroup (cs : List Char) : Option UInt16 :=
  if 4 < cs.length then none else (Numeral.readDigits 16 Numeral.bound16 cs).map Nat.toUInt16

def pair (high low : UInt8) : UInt16 := high.toUInt16 * 256 + low.toUInt16

/-- Groups, of which the last two may be written as four bytes. -/
def readPieces : List (List Char) → Option (List UInt16)
  | [] => some []
  | [piece] => match readBytes piece with
    | some (a, b, c, d) => some [pair a b, pair c d]
    | none => (readGroup piece).map fun group => [group]
  | piece :: rest => do return (← readGroup piece) :: (← readPieces rest)

/-- The pieces between colons. No text has no pieces. -/
def pieces (cs : List Char) : List (List Char) := if cs.isEmpty then [] else Text.splitOn ':' cs

/-- What stands before and after the first two colons that follow each other. -/
def cutGap : List Char → Option (List Char × List Char)
  | [] => none
  | ':' :: ':' :: rest => some ([], rest)
  | c :: rest => (cutGap rest).map fun (before, after) => (c :: before, after)

/-- All groups. A gap stands for one zero group or more. -/
def readGroups (cs : List Char) : Option (List UInt16) :=
  match cutGap cs with
  | none => readPieces (pieces cs)
  | some (before, after) => do
    let before ← (pieces before).mapM readGroup
    let after ← readPieces (pieces after)
    let known := before.length + after.length
    if known < 8 then some (before ++ List.replicate (8 - known) 0 ++ after) else none

def readV6 (cs : List Char) : Option Machine := do
  let (cs, zone) ← match Text.cut '%' cs with
    | some (cs, zone) => (Numeral.readDigits 10 0x100000000 zone).map fun n => (cs, n.toUInt32)
    | none => some (cs, 0)
  let groups ← readGroups cs
  if size : groups.length = 8 then some (v6 ⟨groups.toArray, size⟩ zone) else none

def writeBytes (a b c d : UInt8) : List Char :=
  Text.join '.' ([a, b, c, d].map fun byte => Numeral.write 10 byte.toNat)

/-- The length of the run of zeros that starts at an index. -/
def zerosAt (groups : List UInt16) (index : Nat) : Nat :=
  ((groups.drop index).takeWhile (· == 0)).length

/-- Where the first of the longest runs of zeros starts, and its length. -/
def longestZeros (groups : List UInt16) : Nat × Nat :=
  (List.range groups.length).foldl (fun best index =>
    if best.2 < zerosAt groups index then (index, zerosAt groups index) else best) (0, 0)

def writeRun (groups : List UInt16) : List Char :=
  Text.join ':' (groups.map fun group => (Numeral.write 16 group.toNat).map foldChar)

/-- All groups. A run of zeros is left out if it is longer than one; a machine of four bytes among
those of eight groups shows its bytes. -/
def writeGroups (groups : List UInt16) : List Char :=
  match groups with
  | [0, 0, 0, 0, 0, 0xFFFF, g, h] =>
    "::ffff:".toList ++
      writeBytes (g / 256).toUInt8 (g % 256).toUInt8 (h / 256).toUInt8 (h % 256).toUInt8
  | _ =>
    let (start, length) := longestZeros groups
    if length ≤ 1 then writeRun groups
    else writeRun (groups.take start) ++ ':' :: ':' :: writeRun (groups.drop (start + length))

/-- The text of a machine in an address. The zone zero is not written. -/
def write : Machine → List Char
  | v4 a b c d => writeBytes a b c d
  | v6 groups zone =>
    let zone := if zone = 0 then [] else '%' :: Numeral.write 10 zone.toNat
    '[' :: writeGroups groups.toList ++ zone ++ [']']

end Machine

namespace Address

/-- The machine that a program itself runs on, with a port. -/
def loopback (port : UInt16) : Address := ⟨.v4 127 0 0 1, port⟩

def readPort : List Char → Option UInt16
  | ':' :: digits => (Numeral.readDigits 10 Numeral.bound16 digits).map Nat.toUInt16
  | _ => none

def parse (text : String) : Option Address :=
  match text.toList with
  | '[' :: rest => do
    let (machine, port) ← Text.cut ']' rest
    return ⟨← Machine.readV6 machine, ← readPort port⟩
  | cs => do
    let (machine, port) ← Text.cut ':' cs
    let (a, b, c, d) ← Machine.readBytes machine
    return ⟨.v4 a b c d, ← readPort (':' :: port)⟩

def text (address : Address) : String :=
  String.ofList (address.machine.write ++ ':' :: Numeral.write 10 address.port.toNat)

end Address

end HttpExchange
