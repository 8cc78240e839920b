/-!
Names compared without regard to the case of their ASCII letters. All other characters stand
for themselves.
-/

namespace HttpExchange

def foldChar (c : Char) : Char :=
  if 'A' ≤ c ∧ c ≤ 'Z' then Char.ofNat (c.toNat + 32) else c

def foldCase (s : String) : List Char := s.toList.map foldChar

/-- Whether two names differ at most in the case of ASCII letters. -/
def sameName (a b : String) : Bool := foldCase a == foldCase b

theorem sameName_iff {a b : String} : sameName a b = true ↔ foldCase a = foldCase b := by
  simp [sameName]

theorem sameName_refl (a : String) : sameName a a = true := sameName_iff.2 rfl

theorem sameName_comm (a b : String) : sameName a b = sameName b a := by
  rw [Bool.eq_iff_iff, sameName_iff, sameName_iff]
  exact eq_comm

end HttpExchange
