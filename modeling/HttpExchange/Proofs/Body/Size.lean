import HttpExchange.Body.Chunk
import HttpExchange.Proofs.Text.Digits
import HttpExchange.Proofs.Text.Split
import HttpExchange.Proofs.Text.Utf8

/-!
Which lines name the size of a chunk, and which size. Nothing is read but hexadecimal digits, at
most sixteen of them, with blanks around and an extension behind; but a plus sign may take the place
of the first.
-/

namespace HttpExchange.Chunk

variable {line : Bytes} {sign : List Char} {n : Nat}

/-- In front of its first semicolon the line has nothing but blanks around the digits of a size, and
this sign before them. -/
def Names (line : Bytes) (sign : List Char) (n : Nat) : Prop :=
  ∃ before digits after, (∀ c ∈ before, isBlank c = true) ∧ (∀ c ∈ after, isBlank c = true) ∧
    (line.takeWhile fun b => b ≠ 0x3B) = Utf8.encodeChars (before ++ (sign ++ digits ++ after)) ∧
    Numeral.Spells 16 digits n ∧ (sign ++ digits).length ≤ maxSizeDigits

theorem Names.small (names : Names line sign n) : n < Numeral.bound64 := by
  obtain ⟨_, digits, _, _, _, _, spells, fits⟩ := names
  have few : digits.length ≤ 16 := by
    rw [List.length_append] at fits
    exact Nat.le_trans (Nat.le_add_left _ _) fits
  exact Nat.lt_of_lt_of_le (spells.lt_pow (by decide)) (Nat.pow_le_pow_right (by decide) few)

theorem names_of_parseSize (parsed : parseSize line = .ok n) :
    ∃ sign, (sign = [] ∨ sign = ['+']) ∧ Names line sign n := by
  unfold parseSize at parsed
  split at parsed
  · cases parsed
  next text decoded =>
  obtain ⟨before, after, whole, first, last⟩ := Text.eq_around_trim text
  simp only at parsed
  split at parsed
  · cases parsed
  next fits =>
  rw [Bool.not_eq_true, Bool.or_eq_false_iff, decide_eq_false_iff_not, Nat.not_lt] at fits
  split at parsed
  · next m read =>
      cases parsed
      obtain ⟨⟨sign, digits, numeral, signed, spells⟩, _⟩ := Numeral.read_eq_some_iff.mp read
      rw [numeral] at whole fits
      have ascii : ∀ c ∈ sign ++ digits, c.toNat < 0x80 :=
        fun c member => (spells.plain_signed signed c member).1
      rw [Utf8.length_encodeChars_of_ascii ascii] at fits
      refine ⟨sign, signed, before, digits, after, first, last, ?_, spells, fits.2⟩
      rw [← whole]
      exact Utf8.decodeChars_eq_ok_iff.mp decoded
  · cases parsed

theorem parseSize_of_names (signed : sign = [] ∨ sign = ['+']) (names : Names line sign n) :
    parseSize line = .ok n := by
  have small := names.small
  obtain ⟨before, digits, after, first, last, text, spells, fits⟩ := names
  have plain := spells.plain_signed signed
  have numeral : Text.trim (before ++ (sign ++ digits ++ after)) = sign ++ digits := by
    rw [Text.trim_around first last, Text.trim_eq_self fun c member => (plain c member).2]
  have some : (sign ++ digits).isEmpty = false := by
    rw [List.isEmpty_eq_false_iff]
    exact List.append_ne_nil_of_right_ne_nil sign spells.1
  have short : decide (maxSizeDigits < (Utf8.encodeChars (sign ++ digits)).length) = false := by
    rw [Utf8.length_encodeChars_of_ascii fun c member => (plain c member).1,
      decide_eq_false_iff_not, Nat.not_lt]
    exact fits
  have read : Numeral.read 16 Numeral.bound64 (sign ++ digits) = Option.some n :=
    Numeral.read_eq_some_iff.mpr ⟨⟨sign, digits, rfl, signed, spells⟩, small⟩
  rw [parseSize, Utf8.decodeChars_eq_ok_iff.mpr text]
  simp only [numeral, some, short, read, Bool.or_self, Bool.false_eq_true, if_false]

/-- A line names a size exactly if it has nothing but the digits of it, sixteen characters at most,
with blanks around them, behind them an extension, and before them a plus sign or none. No size goes
beyond 64 bits. -/
theorem parseSize_eq_ok_iff (line : Bytes) :
    (∀ n, parseSize line = .ok n ↔ Names line [] n ∨ Names line ['+'] n) ∧
      ∀ n, parseSize line = .ok n → n < Numeral.bound64 := by
  constructor
  · intro n
    constructor
    · intro parsed
      obtain ⟨sign, rfl | rfl, names⟩ := names_of_parseSize parsed
      · exact .inl names
      · exact .inr names
    · rintro (names | names)
      · exact parseSize_of_names (.inl rfl) names
      · exact parseSize_of_names (.inr rfl) names
  · intro n parsed
    obtain ⟨sign, signed, names⟩ := names_of_parseSize parsed
    exact names.small

/-- A plus sign is taken for a part of the size. -/
theorem parseSize_plus_five :
    ¬ ∀ (line : Bytes) (n : Nat), parseSize line = .ok n ↔ Names line [] n := by
  intro only
  obtain ⟨before, digits, after, first, last, text, spells, _⟩ :=
    (only [0x2B, 0x35] 5).mp (by decide +kernel)
  have decoded := Utf8.decodeChars_encodeChars (before ++ ([] ++ digits ++ after))
  have read : Utf8.decodeChars ([0x2B, 0x35].takeWhile fun b => b ≠ 0x3B) = .ok ['+', '5'] := by
    decide +kernel
  rw [← text] at decoded
  have same : before ++ (digits ++ after) = ['+', '5'] := Except.ok.inj (decoded.symm.trans read)
  -- the plus sign is neither a blank nor a digit
  cases before with
  | cons c before =>
      obtain rfl : c = '+' := List.head_eq_of_cons_eq same
      exact absurd (first '+' List.mem_cons_self) (by decide)
  | nil =>
      cases digits with
      | nil => exact spells.1 rfl
      | cons c digits =>
          obtain rfl : c = '+' := List.head_eq_of_cons_eq same
          exact absurd rfl spells.ne_plus

end HttpExchange.Chunk
