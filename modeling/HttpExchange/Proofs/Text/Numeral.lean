import HttpExchange.Text.Blank
import HttpExchange.Text.Numeral

/-!
A number is read back from its numeral, and the numeral has no more digits than the number needs.
-/

namespace HttpExchange.Numeral

theorem digit_digitChar {d : Nat} (small : d < 16) : digit (digitChar d) = some d := by
  have table : ∀ d < 16, digit (digitChar d) = some d := by decide
  exact table d small

theorem valueOnto_writeOnto {base : Nat} (two : 2 ≤ base) (sixteen : base ≤ 16) (n : Nat)
    (tail : List Char) :
    valueOnto base 0 (writeOnto base n tail) = valueOnto base n tail := by
  induction n using Nat.strongRecOn generalizing tail with
  | ind n ih =>
      rw [writeOnto]
      split
      · next large =>
          have digits : n % base < base := Nat.mod_lt n (by omega)
          rw [ih (n / base) (Nat.div_lt_self (by omega) (by omega)), valueOnto,
            digit_digitChar (by omega)]
          simp only [if_pos digits, Nat.div_add_mod' n base]
      · next small =>
          rw [valueOnto, digit_digitChar (by omega)]
          simp only [if_pos (show n < base by omega), Nat.zero_mul, Nat.zero_add]

theorem mem_writeOnto {base : Nat} (two : 2 ≤ base) {n : Nat} {tail : List Char} {c : Char}
    (member : c ∈ writeOnto base n tail) : (∃ d < base, c = digitChar d) ∨ c ∈ tail := by
  induction n using Nat.strongRecOn generalizing tail with
  | ind n ih =>
      rw [writeOnto] at member
      split at member
      · rcases ih (n / base) (Nat.div_lt_self (by omega) (by omega)) member with digit | later
        · exact .inl digit
        · rcases List.mem_cons.mp later with rfl | behind
          · exact .inl ⟨n % base, Nat.mod_lt n (by omega), rfl⟩
          · exact .inr behind
      · rcases List.mem_cons.mp member with rfl | behind
        · exact .inl ⟨n, by omega, rfl⟩
        · exact .inr behind

theorem mem_write {base n : Nat} (two : 2 ≤ base) {c : Char} (member : c ∈ write base n) :
    ∃ d < base, c = digitChar d := by
  rcases mem_writeOnto two member with digit | none
  · exact digit
  · exact absurd none List.not_mem_nil

theorem writeOnto_ne_nil (base n : Nat) (tail : List Char) : writeOnto base n tail ≠ [] := by
  induction n using Nat.strongRecOn generalizing tail with
  | ind n ih =>
      rw [writeOnto]
      split
      · exact ih (n / base) (Nat.div_lt_self (by omega) (by omega)) _
      · exact List.cons_ne_nil _ _

theorem write_ne_nil (base n : Nat) : write base n ≠ [] := writeOnto_ne_nil base n []

theorem length_writeOnto_le {base k n : Nat} (few : n < Nat.pow base (k + 1))
    (tail : List Char) : (writeOnto base n tail).length ≤ k + 1 + tail.length := by
  induction k generalizing n tail with
  | zero =>
      have digit : n < base := Nat.lt_of_lt_of_eq few (Nat.pow_one base)
      rw [writeOnto, dif_neg (by omega), List.length_cons]
      omega
  | succ k ih =>
      rw [writeOnto]
      split
      · have fewer : n / base < Nat.pow base (k + 1) := by
          apply Nat.div_lt_of_lt_mul
          rw [Nat.mul_comm]
          exact few
        have shorter := ih fewer (digitChar (n % base) :: tail)
        rw [List.length_cons] at shorter
        omega
      · rw [List.length_cons]
        omega

theorem length_write_le (base : Nat) {k n : Nat} (few : n < Nat.pow base (k + 1)) :
    (write base n).length ≤ k + 1 := length_writeOnto_le few []

theorem digitChar_plain {d : Nat} (small : d < 16) :
    digitChar d ≠ '+' ∧ isBlank (digitChar d) = false ∧ (digitChar d).toNat < 0x80 ∧
      digitChar d ≠ ';' := by
  have table : ∀ d < 16, digitChar d ≠ '+' ∧ isBlank (digitChar d) = false ∧
      (digitChar d).toNat < 0x80 ∧ digitChar d ≠ ';' := by decide
  exact table d small

theorem isBlank_of_mem_write {base n : Nat} (two : 2 ≤ base) (sixteen : base ≤ 16) {c : Char}
    (member : c ∈ write base n) : isBlank c = false := by
  obtain ⟨d, few, rfl⟩ := mem_write two member
  exact (digitChar_plain (by omega)).2.1

theorem notMem_write_of_isBlank {c : Char} (blank : isBlank c = true) (n : Nat) :
    c ∉ write 10 n := by
  intro member
  have plain := isBlank_of_mem_write (by decide) (by decide) member
  exact absurd (blank.symm.trans plain) (by decide)

theorem length_write_hundreds {n : Nat} (lower : 100 ≤ n) (upper : n < 1000) :
    (write 10 n).length = 3 := by
  rw [write, writeOnto, dif_pos (by omega), writeOnto, dif_pos (by omega), writeOnto,
    dif_neg (by omega)]
  rfl

theorem ascii_of_mem_write {base n : Nat} (two : 2 ≤ base) (sixteen : base ≤ 16) {c : Char}
    (member : c ∈ write base n) : c.toNat < 0x80 := by
  obtain ⟨d, few, rfl⟩ := mem_write two member
  exact (digitChar_plain (by omega)).2.2.1

/-- A number is read back from its numeral. -/
theorem read_write {base bound n : Nat} (two : 2 ≤ base) (sixteen : base ≤ 16)
    (small : n < bound) : read base bound (write base n) = some n := by
  have digits : readDigits base bound (write base n) = some n := by
    rw [readDigits, if_neg (by simp only [List.isEmpty_iff]; exact write_ne_nil base n), write,
      valueOnto_writeOnto two sixteen, valueOnto]
    simp only [Option.filter_some, small, decide_true, if_true]
  unfold read
  split
  · next numeral =>
      obtain ⟨d, few, sign⟩ := mem_write (c := '+') two (numeral ▸ List.mem_cons_self)
      exact absurd sign.symm (digitChar_plain (by omega)).1
  · exact digits

end HttpExchange.Numeral
