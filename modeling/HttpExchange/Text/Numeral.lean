/-!
Natural numbers in a base of at most sixteen. A numeral that is read may have a plus sign and
letters of either case; one that is written has neither, and no leading zeros.
-/

namespace HttpExchange.Numeral

def digit (c : Char) : Option Nat :=
  if '0' ≤ c ∧ c ≤ '9' then some (c.toNat - 48)
  else if 'A' ≤ c ∧ c ≤ 'F' then some (c.toNat - 55)
  else if 'a' ≤ c ∧ c ≤ 'f' then some (c.toNat - 87)
  else none

/-- The number that digits continue, the first ones being worth `high`. -/
def valueOnto (base : Nat) : (high : Nat) → List Char → Option Nat
  | high, [] => some high
  | high, c :: r => match digit c with
    | some d => if d < base then valueOnto base (high * base + d) r else none
    | none => none

/-- The number below `bound` that digits stand for, of which there is at least one. -/
def readDigits (base bound : Nat) (cs : List Char) : Option Nat :=
  if cs.isEmpty then none else (valueOnto base 0 cs).filter (· < bound)

/-- The number below `bound` that a numeral stands for. A plus sign may come first. -/
def read (base bound : Nat) (cs : List Char) : Option Nat :=
  match cs with
  | '+' :: digits => readDigits base bound digits
  | digits => readDigits base bound digits

def digitChar (d : Nat) : Char := if d < 10 then Char.ofNat (48 + d) else Char.ofNat (55 + d)

/-- The digits of a number, the highest first, in front of `tail`. -/
def writeOnto (base n : Nat) (tail : List Char) : List Char :=
  if _ : 2 ≤ base ∧ base ≤ n then writeOnto base (n / base) (digitChar (n % base) :: tail)
  else digitChar n :: tail
termination_by n
decreasing_by exact Nat.div_lt_self (by omega) (by omega)

def write (base n : Nat) : List Char := writeOnto base n []

def decimal (n : Nat) : String := String.ofList (write 10 n)

def bound64 : Nat := 0x10000000000000000

def bound16 : Nat := 0x10000

end HttpExchange.Numeral
