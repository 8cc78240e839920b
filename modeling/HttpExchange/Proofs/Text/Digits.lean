import HttpExchange.Proofs.Text.Numeral
import Mathlib.Data.List.Forall2
import Mathlib.Data.Nat.Digits.Defs
import Mathlib.Tactic.Ring

/-!
What numerals are read: exactly the digits of numbers below the bound, of which there is at least
one, and these with a plus sign in front.
-/

namespace HttpExchange.Numeral

/-- The character is a digit that counts so much, in either case. -/
def IsDigit (c : Char) (d : Nat) : Prop :=
  "0123456789ABCDEF".toList[d]? = some c ∨ "0123456789abcdef".toList[d]? = some c

/-- The characters, at least one, are the digits of a number, the highest first. -/
def Spells (base : Nat) (cs : List Char) (n : Nat) : Prop :=
  cs ≠ [] ∧ ∃ ds : List Nat, List.Forall₂ IsDigit cs ds ∧ (∀ d ∈ ds, d < base) ∧
    Nat.ofDigits base ds.reverse = n

theorem digit_of_isDigit {c : Char} {d : Nat} (is : IsDigit c d) : digit c = some d := by
  have upper : ∀ d < 16, "0123456789ABCDEF".toList[d]?.bind digit = some d := by decide
  have lower : ∀ d < 16, "0123456789abcdef".toList[d]?.bind digit = some d := by decide
  rcases is with at_ | at_
  · have small : d < 16 := (List.getElem?_eq_some_iff.mp at_).1
    have value := upper d small
    rwa [at_] at value
  · have small : d < 16 := (List.getElem?_eq_some_iff.mp at_).1
    have value := lower d small
    rwa [at_] at value

theorem isDigit_of_digit {c : Char} {d : Nat} (value : digit c = some d) : IsDigit c d := by
  have decimal : ∀ d < 10, "0123456789ABCDEF".toList[d]? = some (Char.ofNat (48 + d)) := by decide
  have upper : ∀ d < 16, 10 ≤ d →
    "0123456789ABCDEF".toList[d]? = some (Char.ofNat (55 + d)) := by decide
  have lower : ∀ d < 16, 10 ≤ d →
    "0123456789abcdef".toList[d]? = some (Char.ofNat (87 + d)) := by decide
  unfold digit at value
  split at value
  · next range =>
      have least : 48 ≤ c.toNat := range.1
      have most : c.toNat ≤ 57 := range.2
      cases value
      have at_ := decimal (c.toNat - 48) (by omega)
      rw [Nat.add_sub_cancel' least, Char.ofNat_toNat] at at_
      exact .inl at_
  · split at value
    · next range =>
        have least : 65 ≤ c.toNat := range.1
        have most : c.toNat ≤ 70 := range.2
        cases value
        have at_ := upper (c.toNat - 55) (by omega) (by omega)
        rw [Nat.add_sub_cancel' (by omega), Char.ofNat_toNat] at at_
        exact .inl at_
    · split at value
      · next range =>
          have least : 97 ≤ c.toNat := range.1
          have most : c.toNat ≤ 102 := range.2
          cases value
          have at_ := lower (c.toNat - 87) (by omega) (by omega)
          rw [Nat.add_sub_cancel' (by omega), Char.ofNat_toNat] at at_
          exact .inr at_
      · cases value

theorem valueOnto_eq_some_iff {base high n : Nat} {cs : List Char} :
    valueOnto base high cs = some n ↔ ∃ ds : List Nat, List.Forall₂ IsDigit cs ds ∧
      (∀ d ∈ ds, d < base) ∧ n = base ^ cs.length * high + Nat.ofDigits base ds.reverse := by
  induction cs generalizing high with
  | nil =>
      rw [valueOnto, Option.some_inj]
      constructor
      · rintro rfl
        exact ⟨[], .nil, List.forall_mem_nil _, by simp⟩
      · rintro ⟨ds, digits, _, rfl⟩
        cases digits
        simp
  | cons c cs ih =>
      have joint : ∀ (d : Nat) (ds : List Nat), cs.length = ds.length →
          base ^ cs.length * (high * base + d) + Nat.ofDigits base ds.reverse =
            base ^ (c :: cs).length * high + Nat.ofDigits base (d :: ds).reverse := by
        intro d ds same
        rw [List.reverse_cons, Nat.ofDigits_append, Nat.ofDigits_singleton, List.length_reverse,
          ← same, List.length_cons, Nat.pow_succ]
        ring
      constructor
      · intro value
        rw [valueOnto] at value
        split at value
        · next d first =>
            split at value
            · next small =>
                obtain ⟨ds, digits, below, rfl⟩ := ih.mp value
                refine ⟨d :: ds, .cons (isDigit_of_digit first) digits, ?_,
                  joint d ds digits.length_eq⟩
                rw [List.forall_mem_cons]
                exact ⟨small, below⟩
            · cases value
        · cases value
      · rintro ⟨ds, digits, below, rfl⟩
        cases digits with
        | @cons _ d _ ds first digits =>
            rw [List.forall_mem_cons] at below
            simp only [valueOnto, digit_of_isDigit first, if_pos below.1]
            exact ih.mpr ⟨ds, digits, below.2, (joint d ds digits.length_eq).symm⟩

theorem readDigits_eq_some_iff {base bound n : Nat} {cs : List Char} :
    readDigits base bound cs = some n ↔ Spells base cs n ∧ n < bound := by
  by_cases none : cs = []
  · subst none
    exact ⟨nofun, fun spelled => absurd rfl spelled.1.1⟩
  · rw [readDigits, if_neg (by rwa [List.isEmpty_iff]), Option.filter_eq_some_iff,
      valueOnto_eq_some_iff, decide_eq_true_iff]
    simp only [Nat.mul_zero, Nat.zero_add, Spells, ne_eq, none, not_false_eq_true, true_and,
      eq_comm]

theorem Spells.ne_plus {base n : Nat} {digits cs : List Char} (spells : Spells base cs n) :
    cs ≠ '+' :: digits := by
  rintro rfl
  obtain ⟨_, ds, forall₂, _⟩ := spells
  cases forall₂ with
  | cons first _ => cases digit_of_isDigit first

/-- Exactly the numerals below the bound are read. They may have a plus sign in front. -/
theorem read_eq_some_iff {base bound n : Nat} {cs : List Char} :
    read base bound cs = some n ↔
      (∃ sign digits, cs = sign ++ digits ∧ (sign = [] ∨ sign = ['+']) ∧ Spells base digits n) ∧
        n < bound := by
  unfold read
  split
  · next digits =>
      rw [readDigits_eq_some_iff]
      constructor
      · rintro ⟨spells, small⟩
        exact ⟨⟨['+'], digits, rfl, .inr rfl, spells⟩, small⟩
      · rintro ⟨⟨_, _, same, rfl | rfl, spells⟩, small⟩
        · exact absurd same.symm spells.ne_plus
        · cases same
          exact ⟨spells, small⟩
  · next unsigned =>
      rw [readDigits_eq_some_iff]
      constructor
      · rintro ⟨spells, small⟩
        exact ⟨⟨[], cs, rfl, .inl rfl, spells⟩, small⟩
      · rintro ⟨⟨_, digits, rfl, rfl | rfl, spells⟩, small⟩
        · exact ⟨spells, small⟩
        · exact absurd rfl (unsigned digits)

theorem IsDigit.plain {c : Char} {d : Nat} (is : IsDigit c d) :
    c.toNat < 0x80 ∧ isBlank c = false := by
  have upper : ("0123456789ABCDEF".toList.all fun c =>
      decide (c.toNat < 0x80 ∧ isBlank c = false)) = true := by decide
  have lower : ("0123456789abcdef".toList.all fun c =>
      decide (c.toNat < 0x80 ∧ isBlank c = false)) = true := by decide
  rcases is with at_ | at_
  · exact of_decide_eq_true (List.all_eq_true.mp upper c (List.mem_of_getElem? at_))
  · exact of_decide_eq_true (List.all_eq_true.mp lower c (List.mem_of_getElem? at_))

theorem Spells.plain {base n : Nat} {cs : List Char} (spells : Spells base cs n) :
    ∀ c ∈ cs, c.toNat < 0x80 ∧ isBlank c = false := by
  obtain ⟨-, ds, digits, -⟩ := spells
  induction digits with
  | nil => exact List.forall_mem_nil _
  | cons first _ ih =>
      rw [List.forall_mem_cons]
      exact ⟨first.plain, ih⟩

theorem Spells.plain_signed {base n : Nat} {sign cs : List Char} (signed : sign = [] ∨ sign = ['+'])
    (spells : Spells base cs n) : ∀ c ∈ sign ++ cs, c.toNat < 0x80 ∧ isBlank c = false := by
  rw [List.forall_mem_append]
  refine ⟨?_, spells.plain⟩
  rcases signed with rfl | rfl
  · exact List.forall_mem_nil _
  · rw [List.forall_mem_singleton]
    decide

theorem Spells.lt_pow {base n : Nat} {cs : List Char} (two : 1 < base)
    (spells : Spells base cs n) : n < base ^ cs.length := by
  obtain ⟨_, ds, digits, below, rfl⟩ := spells
  have bound := Nat.ofDigits_lt_base_pow_length (l := ds.reverse) two
    fun d member => below d (List.mem_reverse.mp member)
  rwa [List.length_reverse, ← digits.length_eq] at bound

end HttpExchange.Numeral
