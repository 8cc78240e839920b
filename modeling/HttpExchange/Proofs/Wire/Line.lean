import HttpExchange.Bytes
import Mathlib.Data.List.Basic

/-!
Lines on the wire. A line goes up to its first line feed. A carriage return right in front of that
belongs to the end of the line, not to its text.
-/

namespace HttpExchange.Bytes

/-- A text with the end of its line: a line feed, or one behind a carriage return. A text that has a
carriage return at its own end can only stand with both. -/
inductive Line (text : Bytes) : Bytes → Prop where
  | crlf (noLf : lf ∉ text) : Line text (text ++ Bytes.crlf)
  | bare (noLf : lf ∉ text) (noCr : text.getLast? ≠ some cr) : Line text (text ++ [lf])

/-- What stands in front of a line feed, without a carriage return at its end. -/
def textOf (front : Bytes) : Bytes :=
  if front.getLast? = some cr then front.dropLast else front

theorem crlf_eq (text : Bytes) : text ++ crlf = (text ++ [cr]) ++ [lf] := by
  rw [List.append_assoc]
  rfl

theorem lf_notMem_concat_cr {text : Bytes} (noLf : lf ∉ text) : lf ∉ text ++ [cr] := by
  intro member
  rcases List.mem_append.mp member with inside | last
  · exact noLf inside
  · exact absurd (List.mem_singleton.mp last) (by decide)

namespace Line

variable {text line g : Bytes}

theorem of_front {front : Bytes} (noLf : lf ∉ front) : Line (textOf front) (front ++ [lf]) := by
  by_cases last : front.getLast? = some cr
  · obtain ⟨text, rfl⟩ := List.getLast?_eq_some_iff.mp last
    rw [textOf, if_pos last, List.dropLast_concat, ← crlf_eq]
    exact .crlf fun member => noLf (List.mem_append_left _ member)
  · rw [textOf, if_neg last]
    exact .bare noLf last

theorem front (h : Line text line) :
    ∃ front, line = front ++ [lf] ∧ lf ∉ front ∧ textOf front = text := by
  cases h with
  | crlf noLf =>
      refine ⟨text ++ [cr], crlf_eq text, lf_notMem_concat_cr noLf, ?_⟩
      rw [textOf, List.getLast?_concat, if_pos rfl, List.dropLast_concat]
  | bare noLf noCr => exact ⟨text, rfl, noLf, if_neg noCr⟩

theorem ne_nil (h : Line text line) : line ≠ [] := by
  obtain ⟨front, rfl, _⟩ := h.front
  exact List.append_ne_nil_of_right_ne_nil front (List.cons_ne_nil lf [])

theorem lf_mem (h : Line text line) : lf ∈ line := by
  obtain ⟨front, rfl, _⟩ := h.front
  exact List.mem_append_right front List.mem_cons_self

theorem lf_notMem_of_prefix (h : Line text line) (part : g <+: line)
    (shorter : g.length < line.length) : lf ∉ g := by
  obtain ⟨front, rfl, noLf, _⟩ := h.front
  have inside : g <+: front := by
    apply List.prefix_of_prefix_length_le part (List.prefix_append front [lf])
    rw [List.length_append, List.length_singleton] at shorter
    exact Nat.le_of_lt_succ shorter
  intro member
  exact noLf (inside.mem member)

theorem text_unique {text' : Bytes} (one : Line text line) (other : Line text' line) :
    text = text' := by
  obtain ⟨front, rfl, _, rfl⟩ := one.front
  obtain ⟨front', same, _, rfl⟩ := other.front
  rw [List.append_cancel_right same]

theorem unique {text' line' a b : Bytes} (one : Line text line) (other : Line text' line')
    (same : line ++ a = line' ++ b) : line = line' ∧ a = b := by
  have begins : line <+: line' ++ b := same ▸ List.prefix_append line a
  have begins' : line' <+: line' ++ b := List.prefix_append line' b
  rcases Nat.lt_trichotomy line.length line'.length with shorter | equal | longer
  · have inside := List.prefix_of_prefix_length_le begins begins' (Nat.le_of_lt shorter)
    exact absurd one.lf_mem (other.lf_notMem_of_prefix inside shorter)
  · exact List.append_inj same equal
  · have inside := List.prefix_of_prefix_length_le begins' begins (Nat.le_of_lt longer)
    exact absurd other.lf_mem (one.lf_notMem_of_prefix inside longer)

end Line

/-- Bytes begin with a line that is short enough; or they end before, inside a line; or a line goes
on beyond the limit. -/
theorem line_or (limit : Nat) (x : Bytes) :
    (∃ text line rest, x = line ++ rest ∧ Line text line ∧ line.length ≤ limit) ∨
      (lf ∉ x ∧ x.length < limit) ∨
      ∃ run rest, x = run ++ rest ∧ lf ∉ run ∧ run.length = limit := by
  by_cases ends : lf ∈ x.take limit
  · obtain ⟨front, rest, taken, noLf⟩ := List.eq_append_cons_of_mem ends
    refine .inl ⟨textOf front, front ++ [lf], rest ++ x.drop limit, ?_, .of_front noLf, ?_⟩
    · calc x = x.take limit ++ x.drop limit := (List.take_append_drop limit x).symm
        _ = (front ++ [lf]) ++ (rest ++ x.drop limit) := by simp [taken]
    · have size := congrArg List.length taken
      simp only [List.length_take, List.length_append, List.length_cons] at size
      rw [List.length_append, List.length_singleton]
      omega
  · by_cases short : x.length < limit
    · rw [List.take_of_length_le (Nat.le_of_lt short)] at ends
      exact .inr (.inl ⟨ends, short⟩)
    · refine .inr (.inr ⟨x.take limit, x.drop limit, (List.take_append_drop limit x).symm, ends, ?_⟩)
      rw [List.length_take]
      omega

end HttpExchange.Bytes
