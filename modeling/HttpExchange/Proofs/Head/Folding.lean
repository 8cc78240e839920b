import HttpExchange.Head.Request
import HttpExchange.Head.Response
import HttpExchange.Proofs.Head.Fields
import HttpExchange.Proofs.Text.Utf8
import Mathlib.Data.List.Forall2

/-!
What any lines are folded into. Up to the first empty one each of them has to state a field, and
those that state a content length have to agree. What is found under a name afterwards are the
values of the lines with that name, in order.
-/

namespace HttpExchange

namespace Fields

variable {fields fields' : Fields} {before given : List (String × String)} {line : List Char}
  {lines : List (List Char)} {field other : String × String} {name value : String}

/-- The line states this field: name and value are what stands before and after its first colon,
without the blanks around, and the name is not empty. -/
def States (line : List Char) (field : String × String) : Prop :=
  ∃ name value, line = name ++ ':' :: value ∧ ':' ∉ name ∧ Text.trim name ≠ [] ∧
    field = (String.ofList (Text.trim name), String.ofList (Text.trim value))

theorem splitLine_eq_ok_iff : splitLine line = .ok field ↔ States line field := by
  constructor
  · intro read
    unfold splitLine at read
    split at read
    · cases read
    · next name value found =>
        obtain ⟨rfl, free⟩ := Text.cut_eq_some_iff.mp found
        simp only at read
        split at read
        · cases read
        · next some =>
            cases read
            exact ⟨name, value, rfl, free, fun none => some (List.isEmpty_iff.mpr none), rfl⟩
  · rintro ⟨name, value, rfl, free, some, rfl⟩
    rw [splitLine, Text.cut_append free]
    simp only [List.isEmpty_eq_false_iff.mpr some, Bool.false_eq_true, if_false]

theorem splitLine_error {e : HeadError} (read : splitLine line = .error e) : e = .badField := by
  unfold splitLine at read
  split at read
  · cases read
    rfl
  · simp only at read
    split at read
    · cases read
      rfl
    · cases read

theorem States.unique (one : States line field) (two : States line other) : field = other := by
  rw [← splitLine_eq_ok_iff] at one two
  cases one.symm.trans two
  rfl

theorem forall₂_states (read : lines.map splitLine = given.map .ok) :
    List.Forall₂ States lines given := by
  have each : List.Forall₂ (fun line field => splitLine line = .ok field) lines given := by
    rw [← List.forall₂_map_right_iff, ← List.forall₂_map_left_iff, read]
    exact List.forall₂_refl _
  exact each.imp fun _ _ read => splitLine_eq_ok_iff.mp read

theorem forall₂_states_unique {given' : List (String × String)}
    (one : List.Forall₂ States lines given) (two : List.Forall₂ States lines given') :
    given = given' := by
  induction one generalizing given' with
  | nil =>
      cases two
      rfl
  | cons first _ ih =>
      cases two with
      | cons second rest => rw [first.unique second, ih rest]

theorem States.tidy (states : States line field) : trimmed field.2 = field.2 := by
  obtain ⟨name, value, _, _, _, rfl⟩ := states
  rw [trimmed, String.toList_ofList, Text.trim_trim]

theorem tidy_of_states (states : List.Forall₂ States lines given) (n : String) :
    ∀ value ∈ valuesOf given n, trimmed value = value := by
  intro value member
  obtain ⟨field, found, rfl⟩ := List.mem_map.mp member
  have listed : field ∈ given := (List.mem_filter.mp found).1
  clear member found
  induction states with
  | nil => exact absurd listed List.not_mem_nil
  | cons first _ ih =>
      rcases List.mem_cons.mp listed with rfl | later
      · exact first.tidy
      · exact ih later

/-- All lines with a content length have the same text for it. -/
def Agree (given : List (String × String)) : Prop :=
  ∀ v ∈ valuesOf given contentLength, ∀ w ∈ valuesOf given contentLength, v = w

instance (given : List (String × String)) : Decidable (Agree given) :=
  inferInstanceAs (Decidable (∀ v ∈ valuesOf given contentLength,
    ∀ w ∈ valuesOf given contentLength, v = w))

theorem Agree.left (agree : Agree (before ++ given)) : Agree before := by
  intro v first w second
  rw [Agree, valuesOf_append] at agree
  exact agree v (List.mem_append_left _ first) w (List.mem_append_left _ second)

theorem Agree.head?_eq {v : String} (agree : Agree given) (listed : v ∈ valuesOf given contentLength) :
    (valuesOf given contentLength).head? = some v := by
  cases values : valuesOf given contentLength with
  | nil => exact absurd (values ▸ listed) List.not_mem_nil
  | cons first rest =>
      exact congrArg some (agree first (values ▸ List.mem_cons_self) v listed)

/-- What the values under a name are folded into: one text of them all, or the only content
length. -/
def folded (n : String) (values : List String) : Option String :=
  if sameName n contentLength then values.head? else joined values

structure Folds (given : List (String × String)) (fields : Fields) : Prop where
  agree : Agree given
  find : ∀ n, fields.find? n = folded n (valuesOf given n)

theorem folds_nil : Folds [] [] := by
  refine ⟨fun v member => absurd member List.not_mem_nil, fun n => ?_⟩
  rw [folded]
  split <;> rfl

theorem folded_eq_none_iff {n : String} {values : List String} :
    folded n values = none ↔ values = [] := by
  rw [folded]
  split
  · exact List.head?_eq_none_iff
  · exact joined_eq_none

theorem Folds.has_iff (folds : Folds given fields) (n : String) :
    fields.has n = true ↔ valuesOf given n ≠ [] := by
  rw [has, folds.find, Option.isSome_iff_ne_none, ne_eq, folded_eq_none_iff]

theorem fold_again (single : sameName name contentLength = true) {old : String}
    (found : fields.find? name = some old) :
    fold fields name value = if old = value then .ok fields else .error .badField := by
  induction fields with
  | nil => cases found
  | cons field rest ih =>
      rw [find?_cons] at found
      rw [fold]
      by_cases here : sameName field.1 name = true
      · rw [if_pos here] at found
        cases found
        rw [if_pos here, if_pos single]
      · rw [if_neg here] at found
        rw [if_neg here, ih found]
        split <;> rfl

theorem agree_concat_iff (agree : Agree before) (single : sameName field.1 contentLength = true) :
    Agree (before ++ [field]) ↔ ∀ old, (valuesOf before contentLength).head? = some old →
      old = field.2 := by
  rw [Agree, valuesOf_append, valuesOf_singleton, if_pos single]
  constructor
  · intro agree old first
    exact agree old (List.mem_append_left _ (List.mem_of_mem_head? first)) field.2
      (List.mem_append_right _ (List.mem_singleton_self _))
  · intro alike
    have last : ∀ v ∈ valuesOf before contentLength ++ [field.2], v = field.2 := by
      intro v member
      rcases List.mem_append.mp member with earlier | last
      · exact alike v (agree.head?_eq earlier)
      · exact List.mem_singleton.mp last
    intro v first w second
    exact (last v first).trans (last w second).symm

theorem agree_concat_other (agree : Agree before) (other : sameName field.1 contentLength = false) :
    Agree (before ++ [field]) := by
  rw [Agree, valuesOf_append, valuesOf_singleton, if_neg (by rw [other]; exact Bool.false_ne_true),
    List.append_nil]
  exact agree

theorem folds_concat_of_free (folds : Folds before fields) (agree : Agree (before ++ [field]))
    (free : sameName field.1 contentLength = true → fields.find? field.1 = none) :
    ∃ fields', fold fields field.1 field.2 = .ok fields' ∧ Folds (before ++ [field]) fields' := by
  obtain ⟨fields', folded', spec⟩ := find?_fold field.2 free
  refine ⟨fields', folded', agree, fun n => ?_⟩
  rw [spec, valuesOf_append, valuesOf_singleton]
  by_cases here : sameName field.1 n = true
  · rw [if_pos here, if_pos here]
    by_cases single : sameName n contentLength = true
    · have single' := (sameName_congr here contentLength).trans single
      have none := free single'
      rw [folds.find, folded, if_pos single', valuesOf_congr here, List.head?_eq_none_iff] at none
      rw [folds.find, none, folded, if_pos single, folded, if_pos single]
      rfl
    · rw [folds.find, folded, if_neg single, folded, if_neg single, joined_concat]
  · rw [if_neg here, if_neg here, List.append_nil, folds.find]

theorem folds_concat_of_same (folds : Folds before fields)
    (single : sameName field.1 contentLength = true)
    (first : (valuesOf before contentLength).head? = some field.2) :
    Folds (before ++ [field]) fields := by
  refine ⟨(agree_concat_iff folds.agree single).mpr ?_, fun n => ?_⟩
  · intro old first'
    exact Option.some.inj (first'.symm.trans first)
  · rw [folds.find, valuesOf_append, valuesOf_singleton]
    by_cases here : sameName field.1 n = true
    · have single' := (sameName_congr here contentLength).symm.trans single
      rw [← valuesOf_congr single'] at first
      rw [if_pos here, folded, if_pos single', folded, if_pos single', List.head?_append, first,
        Option.some_or]
    · rw [if_neg here, List.append_nil]

/-- A line more is folded onto those before, unless it has another content length. -/
theorem folds_concat (folds : Folds before fields) (field : String × String) :
    (∃ fields', fold fields field.1 field.2 = .ok fields' ∧ Folds (before ++ [field]) fields') ∨
      fold fields field.1 field.2 = .error .badField ∧ ¬ Agree (before ++ [field]) := by
  cases single : sameName field.1 contentLength with
  | false =>
      refine .inl (folds_concat_of_free folds (agree_concat_other folds.agree single) ?_)
      intro same
      exact absurd (same.symm.trans single) (by decide)
  | true =>
      have stated : fields.find? field.1 = (valuesOf before contentLength).head? := by
        rw [folds.find, folded, if_pos single, valuesOf_congr single]
      have agree := agree_concat_iff folds.agree single
      cases first : (valuesOf before contentLength).head? with
      | none =>
          refine .inl (folds_concat_of_free folds (agree.mpr ?_) fun _ => stated.trans first)
          intro old second
          exact absurd (first.symm.trans second) (Option.some_ne_none old).symm
      | some old =>
          rw [fold_again single (stated.trans first)]
          by_cases same : old = field.2
          · exact .inl ⟨fields, if_pos same, folds_concat_of_same folds single (same ▸ first)⟩
          · exact .inr ⟨if_neg same, fun agree' => same (agree.mp agree' old first)⟩

/-- The lines before the first empty one. -/
def block (lines : List (List Char)) : List (List Char) := lines.takeWhile fun line => !line.isEmpty

theorem block_cons_of_empty (empty : line.isEmpty = true) (lines : List (List Char)) :
    block (line :: lines) = [] := by
  rw [block, List.takeWhile_cons, empty, Bool.not_true, if_neg Bool.false_ne_true]

theorem block_cons (some : line.isEmpty = false) (lines : List (List Char)) :
    block (line :: lines) = line :: block lines := by
  rw [block, List.takeWhile_cons, some, Bool.not_false, if_pos rfl, block]

theorem block_append (lines more : List (List Char)) :
    block (lines ++ [] :: more) = block (lines ++ [[]]) := by
  induction lines with
  | nil => rfl
  | cons line lines ih =>
      rw [List.cons_append, List.cons_append]
      cases empty : line.isEmpty with
      | true => rw [block_cons_of_empty empty, block_cons_of_empty empty]
      | false => rw [block_cons empty, block_cons empty, ih]

/-- Either every line before the first empty one states a field, and these are folded, or the lines
are refused: one of them states none, or the content lengths differ. -/
theorem foldLines_cases (folds : Folds before fields) (lines : List (List Char)) :
    (∃ fields' given, foldLines fields lines = .ok fields' ∧
      List.Forall₂ States (block lines) given ∧ Folds (before ++ given) fields') ∨
    foldLines fields lines = .error .badField ∧
      ∀ given, List.Forall₂ States (block lines) given → ¬ Agree (before ++ given) := by
  induction lines generalizing before fields with
  | nil =>
      refine .inl ⟨fields, [], rfl, .nil, ?_⟩
      rwa [List.append_nil]
  | cons line lines ih =>
      cases empty : line.isEmpty with
      | true =>
          rw [block_cons_of_empty empty]
          refine .inl ⟨fields, [], ?_, .nil, ?_⟩
          · rw [foldLines, empty, if_pos rfl]
          · rwa [List.append_nil]
      | false =>
          rw [block_cons empty, foldLines, empty, if_neg Bool.false_ne_true]
          cases read : splitLine line with
          | error e =>
              cases splitLine_error read
              refine .inr ⟨rfl, fun given states => ?_⟩
              cases states with
              | cons first _ => cases read.symm.trans (splitLine_eq_ok_iff.mpr first)
          | ok field =>
              have first := splitLine_eq_ok_iff.mp read
              rcases folds_concat folds field with ⟨fields₁, folded₁, folds₁⟩ | ⟨refused, differ⟩
              · simp only [folded₁]
                rcases ih folds₁ with ⟨fields', given, read', states, folds'⟩ | ⟨refused, differ⟩
                · refine .inl ⟨fields', field :: given, read', .cons first states, ?_⟩
                  rwa [List.append_assoc, List.singleton_append] at folds'
                · refine .inr ⟨refused, fun given states => ?_⟩
                  cases states with
                  | @cons _ other _ given second states =>
                      cases first.unique second
                      have apart := differ given states
                      rwa [List.append_assoc, List.singleton_append] at apart
              · simp only [refused]
                refine .inr ⟨trivial, fun given states agree => ?_⟩
                cases states with
                | @cons _ other _ given second states =>
                    cases first.unique second
                    rw [← List.singleton_append, ← List.append_assoc] at agree
                    exact differ agree.left

theorem ofLines_cases (lines : List (List Char)) :
    (∃ fields given, ofLines lines = .ok fields ∧ List.Forall₂ States (block lines) given ∧
      Folds given fields) ∨
    ofLines lines = .error .badField ∧
      ∀ given, List.Forall₂ States (block lines) given → ¬ Agree given :=
  foldLines_cases folds_nil lines

theorem ofLines_of_agree (states : List.Forall₂ States (block lines) given) (agree : Agree given) :
    ∃ fields, ofLines lines = .ok fields ∧ Folds given fields := by
  rcases ofLines_cases lines with ⟨fields, given', read, states', folds⟩ | ⟨_, differ⟩
  · cases forall₂_states_unique states states'
    exact ⟨fields, read, folds⟩
  · exact absurd agree (differ given states)

theorem ofLines_of_not_agree (states : List.Forall₂ States (block lines) given)
    (differ : ¬ Agree given) : ofLines lines = .error .badField := by
  rcases ofLines_cases lines with ⟨fields, given', read, states', folds⟩ | ⟨refused, _⟩
  · cases forall₂_states_unique states states'
    exact absurd folds.agree differ
  · exact refused

theorem states_of_ofLines (read : ofLines lines = .ok fields) :
    ∃ given, List.Forall₂ States (block lines) given ∧ Folds given fields := by
  rcases ofLines_cases lines with ⟨fields', given, read', states, folds⟩ | ⟨refused, _⟩
  · cases read.symm.trans read'
    exact ⟨given, states, folds⟩
  · cases read.symm.trans refused

end Fields

end HttpExchange
