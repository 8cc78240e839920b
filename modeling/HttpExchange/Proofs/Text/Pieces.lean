import HttpExchange.Proofs.Text.Split
import Mathlib.Data.List.Basic

/-!
Lines and words by what they are made of. Every text is made up of lines in one way, and of words in
one way, and these are the lines and the words that are read.
-/

namespace HttpExchange.Text

variable {cs line rest text text' w : List Char} {ls ls' ws : List (List Char)} {c d : Char}

/-- The text is these lines. Each ends with a line feed, or with a carriage return and a line feed:
a carriage return in front of a line feed always belongs to the end. Only the last line may have no
end, and then it is not empty. -/
inductive Lined : List Char → List (List Char) → Prop where
  | none : Lined [] []
  | last {line : List Char} (some : line ≠ []) (noLf : '\n' ∉ line) : Lined line [line]
  | bare {line rest : List Char} {ls : List (List Char)} (noLf : '\n' ∉ line)
      (noCr : line.getLast? ≠ some '\r') (behind : Lined rest ls) :
      Lined (line ++ '\n' :: rest) (line :: ls)
  | crlf {line rest : List Char} {ls : List (List Char)} (noLf : '\n' ∉ line)
      (behind : Lined rest ls) : Lined (line ++ '\r' :: '\n' :: rest) (line :: ls)

structure IsWord (w : List Char) : Prop where
  some : w ≠ []
  solid : ∀ c ∈ w, isBlank c = false

/-- The text is these words, with blanks between any two of them, and perhaps at its ends. -/
inductive Worded : List Char → List (List Char) → Prop where
  | none : Worded [] []
  | blank {c : Char} {rest : List Char} {ws : List (List Char)} (blank : isBlank c = true)
      (behind : Worded rest ws) : Worded (c :: rest) ws
  | last {w : List Char} (word : IsWord w) : Worded w [w]
  | word {w rest : List Char} {c : Char} {ws : List (List Char)} (word : IsWord w)
      (gap : isBlank c = true) (behind : Worded (c :: rest) ws) : Worded (w ++ c :: rest) (w :: ws)

/-- A character in front belongs to the first line, unless it is part of a line end. -/
theorem Lined.cons (lined : Lined text (line :: ls)) (notLf : c ≠ '\n')
    (notEnd : ∀ rest, c = '\r' → text ≠ '\n' :: rest) : Lined (c :: text) ((c :: line) :: ls) := by
  have longer {line} (noLf : '\n' ∉ line) : '\n' ∉ c :: line :=
    List.not_mem_cons_of_ne_of_not_mem notLf.symm noLf
  cases lined with
  | last some noLf => exact .last (List.cons_ne_nil c line) (longer noLf)
  | @bare _ rest _ noLf noCr behind =>
      refine @bare (c :: line) rest ls (longer noLf) ?_ behind
      cases line with
      | nil =>
          intro same
          exact notEnd rest (Option.some.inj same) rfl
      | cons d line => rwa [List.getLast?_cons_cons]
  | @crlf _ rest _ noLf behind => exact @crlf (c :: line) rest ls (longer noLf) behind

theorem lined_lines (text : List Char) : Lined text (lines text) := by
  fun_induction lines text with
  | case1 => exact .none
  | case2 rest ih => exact @Lined.bare [] rest _ List.not_mem_nil nofun ih
  | case3 rest ih => exact @Lined.crlf [] rest _ List.not_mem_nil ih
  | case4 c rest notLf _ none ih =>
      rw [none] at ih
      cases ih
      refine .last (List.cons_ne_nil c []) ?_
      exact List.not_mem_cons_of_ne_of_not_mem (Ne.symm notLf) List.not_mem_nil
  | case5 c rest notLf notEnd line ls some ih =>
      rw [some] at ih
      exact ih.cons notLf notEnd

theorem lines_of_lined (lined : Lined text ls) : lines text = ls := by
  induction lined with
  | none => rfl
  | last some noLf => exact lines_of_notMem some noLf
  | bare noLf noCr _ ih => rw [lines_append_lf noLf noCr, ih]
  | crlf noLf _ ih => rw [lines_append noLf, ih]

theorem lines_eq_iff : lines text = ls ↔ Lined text ls := by
  refine ⟨fun found => ?_, lines_of_lined⟩
  rw [← found]
  exact lined_lines text

theorem ended_behind (ended : (text ++ c :: rest).getLast? = some '\n') :
    rest = [] ∨ rest.getLast? = some '\n' := by
  cases rest with
  | nil => exact .inl rfl
  | cons d rest =>
      rw [List.getLast?_append_cons, List.getLast?_cons_cons] at ended
      exact .inr ended

/-- Behind a text that ends with a line feed a new line begins. -/
theorem Lined.append (first : Lined text ls) (ended : text = [] ∨ text.getLast? = some '\n')
    (second : Lined text' ls') : Lined (text ++ text') (ls ++ ls') := by
  induction first with
  | none => exact second
  | last some noLf =>
      rcases ended with rfl | ended
      · exact absurd rfl some
      · exact absurd (List.mem_of_getLast? ended) noLf
  | bare noLf noCr _ ih =>
      rw [List.append_assoc, List.cons_append, List.cons_append]
      refine .bare noLf noCr (ih ?_)
      rcases ended with none | ended
      · exact absurd none (List.append_ne_nil_of_right_ne_nil _ (List.cons_ne_nil _ _))
      · exact ended_behind ended
  | crlf noLf _ ih =>
      rw [List.append_assoc, List.cons_append, List.cons_append, List.cons_append]
      refine .crlf noLf (ih ?_)
      rcases ended with none | ended
      · exact absurd none (List.append_ne_nil_of_right_ne_nil _ (List.cons_ne_nil _ _))
      · rw [List.append_cons] at ended
        exact ended_behind ended

theorem lines_append_of_ended (ended : text = [] ∨ text.getLast? = some '\n') (text' : List Char) :
    lines (text ++ text') = lines text ++ lines text' :=
  lines_eq_iff.mpr ((lined_lines text).append ended (lined_lines text'))

theorem isWord_cons (first : isBlank c = false) (rest : ∀ d ∈ w, isBlank d = false) :
    IsWord (c :: w) := ⟨List.cons_ne_nil c w, List.forall_mem_cons.mpr ⟨first, rest⟩⟩

theorem Worded.onto (worded : Worded (d :: rest) ws) (first : isBlank c = false)
    (second : isBlank d = false) : Worded (c :: d :: rest) (Text.onto c ws) := by
  generalize same : d :: rest = text at worded
  cases worded with
  | none => cases same
  | blank blank =>
      cases same
      exact absurd (blank.symm.trans second) (by decide)
  | last word => exact .last (isWord_cons first word.solid)
  | word word gap behind => exact .word (isWord_cons first word.solid) gap behind

theorem worded_words (text : List Char) : Worded text (words text) := by
  fun_induction words text with
  | case1 => exact .none
  | case2 c blank => exact .blank blank .none
  | case3 c solid =>
      rw [Bool.not_eq_true] at solid
      exact .last (isWord_cons solid (List.forall_mem_nil _))
  | case4 c d r blank ih => exact .blank blank ih
  | case5 c d r solid blank ih =>
      rw [Bool.not_eq_true] at solid
      exact .word (w := [c]) (isWord_cons solid (List.forall_mem_nil _)) blank ih
  | case6 c d r solid solid' ih =>
      rw [Bool.not_eq_true] at solid solid'
      exact ih.onto solid solid'

theorem words_of_worded (worded : Worded text ws) : words text = ws := by
  induction worded with
  | none => rfl
  | blank blank _ ih => rw [words_cons blank, ih]
  | last word => exact words_eq_self word.some word.solid
  | word word gap _ ih =>
      rw [words_append word.some word.solid gap]
      rw [words_cons gap] at ih
      rw [ih]

theorem words_eq_iff : words text = ws ↔ Worded text ws := by
  refine ⟨fun found => ?_, words_of_worded⟩
  rw [← found]
  exact worded_words text

end HttpExchange.Text
