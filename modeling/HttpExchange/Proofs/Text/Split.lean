import HttpExchange.Text.Blank
import HttpExchange.Text.Split
import Mathlib.Data.List.TakeWhile

/-!
Cutting a text undoes putting it together: at a character that occurs nowhere else, at a line end,
and at the blanks between words.
-/

namespace HttpExchange.Text

theorem notMem_append_cons {c sep : Char} {p q : List Char} (first : c ∉ p) (apart : c ≠ sep)
    (second : c ∉ q) : c ∉ p ++ sep :: q := by
  rw [List.mem_append, List.mem_cons]
  rintro (member | same | member)
  · exact first member
  · exact apart same
  · exact second member

theorem cut_append {sep : Char} {p : List Char} (free : sep ∉ p) (q : List Char) :
    cut sep (p ++ sep :: q) = some (p, q) := by
  induction p with
  | nil => rw [List.nil_append, cut, if_pos rfl]
  | cons c p ih =>
      have apart : c ≠ sep := fun same => free (same ▸ List.mem_cons_self)
      rw [List.cons_append, cut, if_neg apart, ih fun member => free (List.mem_cons_of_mem c member),
        Option.map_some]

theorem cut_eq_some_iff {sep : Char} {cs p q : List Char} :
    cut sep cs = some (p, q) ↔ cs = p ++ sep :: q ∧ sep ∉ p := by
  constructor
  · intro found
    induction cs generalizing p with
    | nil => cases found
    | cons c cs ih =>
        rw [cut] at found
        split at found
        · next here =>
            cases found
            rw [here]
            exact ⟨rfl, List.not_mem_nil⟩
        · next apart =>
            obtain ⟨⟨p, q⟩, later, same⟩ := Option.map_eq_some_iff.mp found
            cases same
            obtain ⟨rfl, free⟩ := ih later
            refine ⟨rfl, ?_⟩
            rw [List.mem_cons, not_or]
            exact ⟨fun same => apart same.symm, free⟩
  · rintro ⟨rfl, free⟩
    exact cut_append free q

theorem cut_eq_none_iff {sep : Char} {cs : List Char} : cut sep cs = none ↔ sep ∉ cs := by
  rw [← not_iff_not, not_not, ← ne_eq, Option.ne_none_iff_exists']
  constructor
  · rintro ⟨⟨p, q⟩, found⟩
    rw [(cut_eq_some_iff.mp found).1]
    exact List.mem_append_right p List.mem_cons_self
  · intro member
    obtain ⟨p, q, rfl, free⟩ := List.eq_append_cons_of_mem member
    exact ⟨(p, q), cut_append free q⟩

theorem splitOn_ne_nil (sep : Char) (cs : List Char) : splitOn sep cs ≠ [] := by
  cases cs with
  | nil => exact List.cons_ne_nil _ _
  | cons c cs =>
      rw [splitOn]
      split
      · exact List.cons_ne_nil _ _
      · split <;> exact List.cons_ne_nil _ _

theorem splitOn_of_notMem {sep : Char} {cs : List Char} (free : sep ∉ cs) :
    splitOn sep cs = [cs] := by
  induction cs with
  | nil => rfl
  | cons c cs ih =>
      rw [List.mem_cons, not_or] at free
      rw [splitOn, if_neg fun same => free.1 same.symm, ih free.2]

theorem splitOn_append (sep : Char) (p q : List Char) :
    splitOn sep (p ++ sep :: q) = splitOn sep p ++ splitOn sep q := by
  induction p with
  | nil => simp only [List.nil_append, splitOn, if_true, List.singleton_append]
  | cons c p ih =>
      rw [List.cons_append, splitOn, splitOn]
      split
      · rw [ih, List.cons_append]
      · rw [ih]
        cases pieces : splitOn sep p with
        | nil => exact absurd pieces (splitOn_ne_nil sep p)
        | cons first rest => rfl

theorem join_cons {sep : Char} {pieces : List (List Char)} (some : pieces ≠ []) (p : List Char) :
    join sep (p :: pieces) = p ++ sep :: join sep pieces := by
  cases pieces with
  | nil => exact absurd rfl some
  | cons q pieces => rw [join]

theorem join_splitOn (sep : Char) (cs : List Char) : join sep (splitOn sep cs) = cs := by
  induction cs with
  | nil => rfl
  | cons c cs ih =>
      rw [splitOn]
      split
      · next here => rw [join_cons (splitOn_ne_nil sep cs), ih, here, List.nil_append]
      · cases pieces : splitOn sep cs with
        | nil => exact absurd pieces (splitOn_ne_nil sep cs)
        | cons p ps =>
            rw [pieces] at ih
            cases ps with
            | nil => exact congrArg (c :: ·) ih
            | cons q ps => exact congrArg (c :: ·) ih

theorem notMem_of_mem_splitOn {sep : Char} {cs : List Char} :
    ∀ p ∈ splitOn sep cs, sep ∉ p := by
  induction cs with
  | nil => exact List.forall_mem_singleton.mpr List.not_mem_nil
  | cons c cs ih =>
      rw [splitOn]
      split
      · exact List.forall_mem_cons.mpr ⟨List.not_mem_nil, ih⟩
      · next apart =>
          cases pieces : splitOn sep cs with
          | nil => exact absurd pieces (splitOn_ne_nil sep cs)
          | cons p ps =>
              rw [pieces, List.forall_mem_cons] at ih
              exact List.forall_mem_cons.mpr
                ⟨List.not_mem_cons_of_ne_of_not_mem (Ne.symm apart) ih.1, ih.2⟩

theorem splitOn_join {sep : Char} {pieces : List (List Char)} (some : pieces ≠ [])
    (free : ∀ p ∈ pieces, sep ∉ p) : splitOn sep (join sep pieces) = pieces := by
  induction pieces with
  | nil => exact absurd rfl some
  | cons p pieces ih =>
      rw [List.forall_mem_cons] at free
      cases pieces with
      | nil => exact splitOn_of_notMem free.1
      | cons q pieces =>
          rw [join, splitOn_append, splitOn_of_notMem free.1, ih (List.cons_ne_nil q pieces) free.2,
            List.singleton_append]

/-- The pieces are the only ones that the text is put together from at `sep`. -/
theorem splitOn_eq_iff {sep : Char} {cs : List Char} {pieces : List (List Char)} :
    splitOn sep cs = pieces ↔
      cs = join sep pieces ∧ pieces ≠ [] ∧ ∀ p ∈ pieces, sep ∉ p := by
  constructor
  · rintro rfl
    exact ⟨(join_splitOn sep cs).symm, splitOn_ne_nil sep cs, notMem_of_mem_splitOn⟩
  · rintro ⟨rfl, some, free⟩
    exact splitOn_join some free

/-- A character in front belongs to the first line, unless it is part of a line end. -/
theorem lines_cons {c : Char} {text line : List Char} {ls : List (List Char)} (notLf : c ≠ '\n')
    (notEnd : ∀ rest, c = '\r' → text ≠ '\n' :: rest) (found : lines text = line :: ls) :
    lines (c :: text) = (c :: line) :: ls := by
  rw [lines, found]
  · exact notLf
  · exact notEnd

/-- A line without line feeds inside is taken off with the end behind it. -/
theorem lines_append {line : List Char} (noLf : '\n' ∉ line) (rest : List Char) :
    lines (line ++ '\r' :: '\n' :: rest) = line :: lines rest := by
  induction line with
  | nil => rw [List.nil_append, lines]
  | cons c line ih =>
      rw [List.mem_cons, not_or] at noLf
      refine lines_cons (Ne.symm noLf.1) (fun rest' _ same => ?_) (ih noLf.2)
      cases line with
      | nil => cases same
      | cons d line => exact noLf.2 ((List.cons.inj same).1 ▸ List.mem_cons_self)

theorem lines_append_lf {line : List Char} (noLf : '\n' ∉ line)
    (noCr : line.getLast? ≠ some '\r') (rest : List Char) :
    lines (line ++ '\n' :: rest) = line :: lines rest := by
  induction line with
  | nil => rw [List.nil_append, lines]
  | cons c line ih =>
      rw [List.mem_cons, not_or] at noLf
      cases line with
      | nil =>
          refine lines_cons (Ne.symm noLf.1) (fun rest' cr _ => noCr ?_) (ih noLf.2 nofun)
          rw [cr, List.getLast?_singleton]
      | cons d line =>
          rw [List.getLast?_cons_cons] at noCr
          refine lines_cons (Ne.symm noLf.1) (fun rest' _ same => ?_) (ih noLf.2 noCr)
          exact noLf.2 ((List.cons.inj same).1 ▸ List.mem_cons_self)

theorem lines_of_notMem {line : List Char} (some : line ≠ []) (noLf : '\n' ∉ line) :
    lines line = [line] := by
  induction line with
  | nil => exact absurd rfl some
  | cons c line ih =>
      rw [List.mem_cons, not_or] at noLf
      cases line with
      | nil =>
          rw [lines]
          · rfl
          · exact Ne.symm noLf.1
          · exact nofun
      | cons d line =>
          refine lines_cons (Ne.symm noLf.1) (fun rest' _ same => ?_)
            (ih (List.cons_ne_nil d line) noLf.2)
          exact noLf.2 ((List.cons.inj same).1 ▸ List.mem_cons_self)

theorem isBlank_of_any {cs : List Char} (none : cs.any isBlank = false) :
    ∀ c ∈ cs, isBlank c = false := by
  intro c member
  rw [Bool.eq_false_iff]
  exact List.any_eq_false.mp none c member

theorem dropWhile_isBlank {cs : List Char} (none : ∀ c ∈ cs, isBlank c = false) :
    cs.dropWhile isBlank = cs := by
  cases cs with
  | nil => rfl
  | cons c cs => rw [List.dropWhile_cons_of_neg (by simp only [none c List.mem_cons_self]; decide)]

theorem trim_eq_self {cs : List Char} (none : ∀ c ∈ cs, isBlank c = false) : trim cs = cs := by
  rw [trim, dropWhile_isBlank none, dropWhile_isBlank, List.reverse_reverse]
  intro c member
  exact none c (List.mem_reverse.mp member)

theorem isBlank_of_mem_join {sep : Char} (plain : isBlank sep = false) {pieces : List (List Char)}
    (each : ∀ p ∈ pieces, ∀ c ∈ p, isBlank c = false) :
    ∀ c ∈ join sep pieces, isBlank c = false := by
  induction pieces with
  | nil =>
      intro c member
      exact absurd member List.not_mem_nil
  | cons p pieces ih =>
      have first := each p List.mem_cons_self
      have later := ih fun q member => each q (List.mem_cons_of_mem p member)
      cases pieces with
      | nil => exact first
      | cons q pieces =>
          rw [join, List.forall_mem_append, List.forall_mem_cons]
          exact ⟨first, plain, later⟩

theorem trim_cons {c : Char} (blank : isBlank c = true) (cs : List Char) :
    trim (c :: cs) = trim cs := by
  rw [trim, List.dropWhile_cons_of_pos blank, trim]

theorem dropWhile_of_blank {cs : List Char} (blank : ∀ c ∈ cs, isBlank c = true) :
    cs.dropWhile isBlank = [] := List.dropWhile_eq_nil_iff.mpr blank

/-- Blanks at the ends make no difference to what is left without them. -/
theorem trim_around {before after : List Char} (first : ∀ c ∈ before, isBlank c = true)
    (last : ∀ c ∈ after, isBlank c = true) (cs : List Char) :
    trim (before ++ (cs ++ after)) = trim cs := by
  have behind : ∀ c ∈ after.reverse, isBlank c = true := by
    intro c member
    exact last c (List.mem_reverse.mp member)
  rw [trim, List.dropWhile_append, dropWhile_of_blank first, List.isEmpty_nil, if_pos rfl,
    List.dropWhile_append, trim]
  by_cases empty : cs.dropWhile isBlank = []
  · rw [if_pos (List.isEmpty_iff.mpr empty), dropWhile_of_blank last, empty]
  · rw [if_neg (mt List.isEmpty_iff.mp empty), List.reverse_append, List.dropWhile_append,
      dropWhile_of_blank behind, List.isEmpty_nil, if_pos rfl]

/-- Nothing but blanks is taken off a text. -/
theorem eq_around_trim (cs : List Char) : ∃ before after, cs = before ++ (trim cs ++ after) ∧
    (∀ c ∈ before, isBlank c = true) ∧ ∀ c ∈ after, isBlank c = true := by
  let rest := cs.dropWhile isBlank
  refine ⟨cs.takeWhile isBlank, (rest.reverse.takeWhile isBlank).reverse, ?_, ?_, ?_⟩
  · rw [trim, ← List.reverse_append, List.takeWhile_append_dropWhile, List.reverse_reverse,
      List.takeWhile_append_dropWhile]
  · exact fun c member => List.mem_takeWhile_imp member
  · exact fun c member => List.mem_takeWhile_imp (List.mem_reverse.mp member)

theorem trim_trim (cs : List Char) : trim (trim cs) = trim cs := by
  obtain ⟨before, after, whole, first, last⟩ := eq_around_trim cs
  calc trim (trim cs) = trim (before ++ (trim cs ++ after)) := (trim_around first last _).symm
    _ = trim cs := congrArg trim whole.symm

theorem words_cons {c : Char} (blank : isBlank c = true) (cs : List Char) :
    words (c :: cs) = words cs := by
  cases cs with
  | nil => simp only [words, blank, if_true]
  | cons d r => rw [words, if_pos blank]

theorem words_eq_self {word : List Char} (some : word ≠ [])
    (none : ∀ c ∈ word, isBlank c = false) : words word = [word] := by
  induction word with
  | nil => exact absurd rfl some
  | cons c word ih =>
      have first : isBlank c = false := none c List.mem_cons_self
      cases word with
      | nil => simp only [words, first, Bool.false_eq_true, if_false]
      | cons d word =>
          have second : isBlank d = false := none d (List.mem_cons_of_mem c List.mem_cons_self)
          rw [words, if_neg (by simp only [first]; decide), if_neg (by simp only [second]; decide),
            ih (List.cons_ne_nil d word) (fun x member => none x (List.mem_cons_of_mem c member)),
            onto]

theorem words_append {word : List Char} (some : word ≠ [])
    (none : ∀ c ∈ word, isBlank c = false) {b : Char} (blank : isBlank b = true)
    (rest : List Char) : words (word ++ b :: rest) = word :: words rest := by
  induction word with
  | nil => exact absurd rfl some
  | cons c word ih =>
      have first : isBlank c = false := none c List.mem_cons_self
      cases word with
      | nil =>
          rw [List.cons_append, List.nil_append, words, if_neg (by simp only [first]; decide),
            if_pos blank, words_cons blank]
      | cons d word =>
          have second : isBlank d = false := none d (List.mem_cons_of_mem c List.mem_cons_self)
          have rest := ih (List.cons_ne_nil d word)
            (fun x member => none x (List.mem_cons_of_mem c member))
          rw [List.cons_append] at rest
          rw [List.cons_append, List.cons_append, words, if_neg (by simp only [first]; decide),
            if_neg (by simp only [second]; decide), rest, onto]

end HttpExchange.Text
