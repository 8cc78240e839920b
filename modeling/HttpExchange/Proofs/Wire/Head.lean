import HttpExchange.Proofs.Text.Split
import HttpExchange.Proofs.Text.Utf8
import HttpExchange.Proofs.Wire.Supply
import HttpExchange.Wire.Head

/-!
A head is read back as the lines that were written for it. It ends with its first blank line, and
what stands behind that stays unread.
-/

namespace HttpExchange.Wire

/-- A line that can stand in a head: it is not blank, and nothing inside ends it. -/
structure HeadLine (line : List Char) : Prop where
  some : line ≠ []
  noCr : '\r' ∉ line
  noLf : '\n' ∉ line

/-- Lines with their ends, and a blank line behind the last. -/
def headText : List (List Char) → List Char
  | [] => ['\r', '\n']
  | line :: lines => line ++ '\r' :: '\n' :: headText lines

def headOf (lines : List (List Char)) : Bytes := Utf8.encodeChars (headText lines)

theorem headOf_nil : headOf [] = Bytes.crlf := by decide

theorem headOf_cons (line : List Char) (lines : List (List Char)) :
    headOf (line :: lines) = Utf8.encodeChars line ++ (Bytes.crlf ++ headOf lines) := by
  have ending : headText (line :: lines) = line ++ (headText [] ++ headText lines) := rfl
  rw [headOf, ending, Utf8.encodeChars_append, Utf8.encodeChars_append, ← headOf, ← headOf,
    headOf_nil]

theorem lines_headText {lines : List (List Char)} (each : ∀ line ∈ lines, '\n' ∉ line) :
    Text.lines (headText lines) = lines ++ [[]] := by
  induction lines with
  | nil =>
      rw [headText, Text.lines]
      rfl
  | cons line lines ih =>
      have first := each line List.mem_cons_self
      rw [headText, Text.lines_append first,
        ih fun l member => each l (List.mem_cons_of_mem line member), List.cons_append]

variable {limit budget : Nat} {r : Reader} {x y : Bytes} {tail : List Arrival}

theorem headOnto_append (lines : Bytes) {line : Bytes} (before : Bytes) (noLf : Bytes.lf ∉ line)
    (fits : line.length ≤ budget) (holds : r.Holds (line ++ y) tail) (c : Clock) :
    ∃ r', headOnto limit budget lines before r c =
        headOnto limit (budget - line.length) lines (line.reverse ++ before) r' c ∧
      r'.Holds y tail := by
  induction line generalizing budget before r with
  | nil => exact ⟨r, rfl, holds⟩
  | cons b line ih =>
      rw [List.length_cons] at fits
      obtain ⟨budget, rfl⟩ : ∃ n, budget = n + 1 := ⟨budget - 1, by omega⟩
      have other : b ≠ Bytes.lf := fun same => noLf (same ▸ List.mem_cons_self)
      rw [List.cons_append] at holds
      obtain ⟨r₁, read, holds₁, _⟩ := Reader.next_holds holds holds.room c
      obtain ⟨r', rest, holds'⟩ :=
        ih (b :: before) (fun member => noLf (List.mem_cons_of_mem b member))
          (Nat.le_of_succ_le_succ fits) holds₁
      refine ⟨r', ?_, holds'⟩
      rw [headOnto]
      simp only [read, ne_eq, other, not_false_eq_true, if_true, rest, List.length_cons,
        Nat.add_sub_add_right, List.reverse_cons, List.append_assoc, List.singleton_append]

theorem headOnto_line (lines : Bytes) {line : Bytes} (some : line ≠ []) (noLf : Bytes.lf ∉ line)
    (fits : (line ++ Bytes.crlf).length ≤ budget)
    (holds : r.Holds (line ++ (Bytes.crlf ++ y)) tail) (c : Clock) :
    ∃ r', headOnto limit budget lines [] r c =
        headOnto limit (budget - (line ++ Bytes.crlf).length)
          ((line ++ Bytes.crlf).reverse ++ lines) [] r' c ∧
      r'.Holds y tail := by
  have split : line ++ (Bytes.crlf ++ y) = (line ++ [Bytes.cr]) ++ Bytes.lf :: y := by
    rw [List.append_assoc]
    rfl
  have size : (line ++ Bytes.crlf).length = (line ++ [Bytes.cr]).length + 1 := by
    rw [List.length_append, List.length_append]
    rfl
  have noEnd : Bytes.lf ∉ line ++ [Bytes.cr] := by
    intro member
    rcases List.mem_append.mp member with inside | last
    · exact noLf inside
    · exact absurd (List.mem_singleton.mp last) (by decide)
  rw [size] at fits ⊢
  rw [split] at holds
  obtain ⟨r₁, passed, holds₁⟩ := headOnto_append lines [] noEnd (Nat.le_of_succ_le fits) holds c
  obtain ⟨left, more⟩ : ∃ n, budget - (line ++ [Bytes.cr]).length = n + 1 :=
    ⟨budget - (line ++ [Bytes.cr]).length - 1, by omega⟩
  obtain ⟨r', read, holds', _⟩ := Reader.next_holds holds₁ holds₁.room c
  refine ⟨r', ?_, holds'⟩
  have kept : isBlankLine (Bytes.cr :: line.reverse) = false := by
    rw [isBlankLine, Bool.or_eq_false_iff, beq_eq_false_iff_ne, beq_eq_false_iff_ne]
    refine ⟨List.cons_ne_nil _ _, fun same => some ?_⟩
    exact List.reverse_eq_nil_iff.mp (List.cons.inj same).2
  rw [passed, more, headOnto, show budget - ((line ++ [Bytes.cr]).length + 1) = left by omega]
  simp only [read, ne_eq, not_true_eq_false, if_false, List.append_nil, List.reverse_append,
    kept, Bool.not_false, if_true, Bytes.crlf, List.reverse_cons, List.nil_append,
    List.cons_append, List.reverse_nil]

theorem headOnto_blank {lines : Bytes} (some : lines ≠ []) (fits : Bytes.crlf.length ≤ budget)
    (holds : r.Holds (Bytes.crlf ++ y) tail) (c : Clock) :
    ∃ r', headOnto limit budget lines [] r c =
        (.ok (Option.some (lines.reverse ++ Bytes.crlf)), r', c) ∧ r'.Holds y tail := by
  obtain ⟨budget, rfl⟩ : ∃ n, budget = n + 2 := ⟨budget - 2, by
    rw [Bytes.crlf, List.length_cons, List.length_singleton] at fits
    omega⟩
  obtain ⟨r₁, first, holds₁, _⟩ := Reader.next_holds holds holds.room c
  obtain ⟨r', second, holds', _⟩ := Reader.next_holds holds₁ holds₁.room c
  refine ⟨r', ?_, holds'⟩
  have other : Bytes.cr ≠ Bytes.lf := by decide
  have blank : isBlankLine [Bytes.cr] = true := by decide
  have begun : lines.isEmpty = false := List.isEmpty_eq_false_iff.mpr some
  rw [headOnto]
  simp only [first, ne_eq, other, not_false_eq_true, if_true]
  rw [headOnto]
  simp only [second, ne_eq, not_true_eq_false, if_false, blank, Bool.not_true,
    Bool.false_eq_true, begun, List.singleton_append, List.reverse_cons, List.append_assoc,
    Bytes.crlf]

theorem headOnto_lines {lines : List (List Char)} (each : ∀ line ∈ lines, HeadLine line)
    {before : Bytes} (begun : lines = [] → before ≠ []) (fits : (headOf lines).length ≤ budget)
    (holds : r.Holds (headOf lines ++ y) tail) (c : Clock) :
    ∃ r', headOnto limit budget before [] r c =
        (.ok (some (before.reverse ++ headOf lines)), r', c) ∧ r'.Holds y tail := by
  induction lines generalizing budget before r with
  | nil =>
      rw [headOf_nil] at holds fits ⊢
      exact headOnto_blank (begun rfl) fits holds c
  | cons line lines ih =>
      have first := each line List.mem_cons_self
      have size : (headOf (line :: lines)).length =
          (Utf8.encodeChars line ++ Bytes.crlf).length + (headOf lines).length := by
        rw [headOf_cons, ← List.append_assoc, List.length_append]
      have here : (Utf8.encodeChars line ++ Bytes.crlf).length ≤ budget := by omega
      have later : (headOf lines).length ≤
          budget - (Utf8.encodeChars line ++ Bytes.crlf).length := by omega
      rw [headOf_cons, List.append_assoc, List.append_assoc] at holds
      obtain ⟨r₁, read, holds₁⟩ :=
        headOnto_line before (Utf8.encodeChars_ne_nil first.some)
          (Utf8.lf_notMem_encodeChars first.noLf) here holds c
      have begun₁ : (Utf8.encodeChars line ++ Bytes.crlf).reverse ++ before ≠ [] := by
        rw [List.reverse_append]
        exact List.cons_ne_nil _ _
      obtain ⟨r', rest, holds'⟩ :=
        ih (fun l member => each l (List.mem_cons_of_mem line member)) (fun _ => begun₁)
          later holds₁
      refine ⟨r', ?_, holds'⟩
      rw [read, rest, List.reverse_append, List.reverse_reverse, headOf_cons, List.append_assoc,
        List.append_assoc]

/-- A head that is not longer than the limit is read whole, and nothing more. -/
theorem readHead_headOf {lines : List (List Char)} (some : lines ≠ [])
    (each : ∀ line ∈ lines, HeadLine line) (fits : (headOf lines).length ≤ limit)
    (holds : r.Holds (headOf lines ++ y) tail) (c : Clock) :
    ∃ r', readHead limit r c = (.ok (Option.some (headOf lines)), r', c) ∧ r'.Holds y tail :=
  headOnto_lines each (fun none => absurd none some) fits holds c

end HttpExchange.Wire
