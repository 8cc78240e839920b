import HttpExchange.Body.Chunk
import HttpExchange.Proofs.Text.Numeral
import HttpExchange.Proofs.Text.Split
import HttpExchange.Proofs.Text.Utf8
import Mathlib.Data.List.TakeWhile

/-!
The size of a chunk is read back from the line that was written for it, and that line is short.
-/

namespace HttpExchange.Chunk

/-- The line in front of a chunk, without its end. -/
def sizeText (size : Nat) : Bytes := Utf8.encodeChars (Numeral.write 16 size)

theorem lf_notMem_sizeText (size : Nat) : Bytes.lf ∉ sizeText size := by
  apply Utf8.lf_notMem_encodeChars
  intro member
  have blank := Numeral.isBlank_of_mem_write (by decide) (by decide) member
  exact absurd blank (by decide)

theorem length_sizeText {size : Nat} (small : size < Numeral.bound64) :
    (sizeText size).length ≤ maxSizeDigits := by
  rw [sizeText, Utf8.length_encodeChars_of_ascii]
  · exact Numeral.length_write_le 16 (k := 15) small
  · intro c member
    exact Numeral.ascii_of_mem_write (by decide) (by decide) member

theorem takeWhile_sizeText (size : Nat) :
    ((sizeText size).takeWhile fun b => b ≠ 0x3B) = sizeText size := by
  rw [List.takeWhile_eq_self_iff]
  intro b member
  obtain ⟨c, digit, byte⟩ := List.mem_flatMap.mp member
  obtain ⟨d, few, rfl⟩ := Numeral.mem_write (by decide) digit
  rw [Utf8.encodeChar_ascii (Numeral.digitChar_plain few).2.2.1, List.mem_singleton] at byte
  subst byte
  have table : ∀ d < 16, decide ((Numeral.digitChar d).toNat.toUInt8 ≠ 0x3B) = true := by decide
  exact table d few

theorem parseSize_sizeText {size : Nat} (small : size < Numeral.bound64) :
    parseSize (sizeText size) = .ok size := by
  have plain : Text.trim (Numeral.write 16 size) = Numeral.write 16 size :=
    Text.trim_eq_self fun c member => Numeral.isBlank_of_mem_write (by decide) (by decide) member
  have accepted : ((Numeral.write 16 size).isEmpty ||
      decide (maxSizeDigits < (Utf8.encodeChars (Numeral.write 16 size)).length)) = false := by
    rw [Bool.or_eq_false_iff, List.isEmpty_eq_false_iff, decide_eq_false_iff_not, Nat.not_lt]
    exact ⟨Numeral.write_ne_nil 16 size, length_sizeText small⟩
  rw [parseSize, takeWhile_sizeText, sizeText, Utf8.decodeChars_encodeChars]
  simp only [plain, accepted, Bool.false_eq_true, if_false,
    Numeral.read_write (show 2 ≤ 16 by decide) (Nat.le_refl 16) small]

theorem sizeLine_eq (size : Nat) : sizeLine size = sizeText size ++ Bytes.crlf := rfl

end HttpExchange.Chunk
