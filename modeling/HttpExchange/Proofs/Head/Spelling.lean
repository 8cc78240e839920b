import HttpExchange.Proofs.Head.Folding

/-!
The names that folded fields have. No two of them differ in case only, each is the spelling that
came first, and so what is found under a name does not depend on the order in which the fields are
kept. Only the lines before the first empty one count.
-/

namespace HttpExchange

namespace Fields

variable {fields fields' other : Fields} {before given more : List (String × String)}
  {lines lines' : List (List Char)} {field : String × String} {name value : String}

theorem foldLines_block (fields : Fields) (lines : List (List Char)) :
    foldLines fields (block lines) = foldLines fields lines := by
  induction lines generalizing fields with
  | nil => rfl
  | cons line lines ih =>
      cases empty : line.isEmpty with
      | true => rw [block_cons_of_empty empty, foldLines, foldLines, empty, if_pos rfl]
      | false =>
          rw [block_cons empty]
          simp only [foldLines, empty, Bool.false_eq_true, if_false]
          rcases splitLine line with e | ⟨name, value⟩
          · rfl
          · simp only
            rcases fold fields name value with e | fields'
            · rfl
            · exact ih fields'

theorem ofLines_congr (same : block lines' = block lines) : ofLines lines' = ofLines lines := by
  rw [ofLines, ← foldLines_block, same, foldLines_block, ← ofLines]

/-- The name stands in one of the lines, and in none before it, in any spelling. -/
def FirstSpelling (given : List (String × String)) (name : String) : Prop :=
  ∃ front value back, given = front ++ (name, value) :: back ∧ valuesOf front name = []

/-- Each name is kept once, in the spelling that came first. -/
structure Spelled (given : List (String × String)) (fields : Fields) : Prop where
  apart : Apart fields
  first : ∀ field ∈ fields, FirstSpelling given field.1

theorem FirstSpelling.append (first : FirstSpelling given name) (more : List (String × String)) :
    FirstSpelling (given ++ more) name := by
  obtain ⟨front, value, back, rfl, none⟩ := first
  exact ⟨front, value, back ++ more, by rw [List.append_assoc, List.cons_append], none⟩

theorem has_eq_false_iff :
    fields.has name = false ↔ ∀ field ∈ fields, sameName field.1 name = false := by
  rw [has, find?, Option.isSome_map, Option.isSome_eq_false_iff, Option.isNone_iff_eq_none,
    List.find?_eq_none]
  simp only [Bool.not_eq_true]

theorem names_fold (folded : fold fields name value = .ok fields') :
    fields'.map Prod.fst = fields.map Prod.fst ++ if fields.has name then [] else [name] := by
  induction fields generalizing fields' with
  | nil =>
      cases folded
      rfl
  | cons field rest ih =>
      rw [fold] at folded
      by_cases here : sameName field.1 name = true
      · have present : has (field :: rest) name = true := by
          rw [has, find?_cons, if_pos here]
          rfl
        rw [if_pos here] at folded
        rw [present, if_pos rfl, List.append_nil]
        split at folded
        · split at folded <;> cases folded
          rfl
        · cases folded
          rfl
      · have later : has (field :: rest) name = has rest name := by
          rw [has, find?_cons, if_neg here, has]
        rw [if_neg here] at folded
        cases folded' : fold rest name value with
        | error e =>
            rw [folded'] at folded
            cases folded
        | ok rest' =>
            rw [folded'] at folded
            cases folded
            rw [later, List.map_cons, ih folded', List.map_cons, List.cons_append]

theorem apart_iff_names :
    Apart fields ↔ (fields.map Prod.fst).Pairwise fun a b => sameName a b = false := by
  rw [Apart, List.pairwise_map]

theorem spelled_nil : Spelled [] [] := ⟨List.Pairwise.nil, List.forall_mem_nil _⟩

theorem Spelled.concat (spelled : Spelled before fields) (folds : Folds before fields)
    (folded : fold fields field.1 field.2 = .ok fields') : Spelled (before ++ [field]) fields' := by
  have names := names_fold folded
  have kept : ∀ name ∈ fields.map Prod.fst, FirstSpelling (before ++ [field]) name := by
    intro name member
    obtain ⟨old, found, rfl⟩ := List.mem_map.mp member
    exact (spelled.first old found).append [field]
  have apart := apart_iff_names.mp spelled.apart
  cases present : fields.has field.1 with
  | true =>
      rw [present, if_pos rfl, List.append_nil] at names
      refine ⟨apart_iff_names.mpr (names ▸ apart), fun field' member => ?_⟩
      exact kept field'.1 (names ▸ List.mem_map_of_mem member)
  | false =>
      rw [present, if_neg Bool.false_ne_true] at names
      have new : valuesOf before field.1 = [] := by
        by_contra some
        exact Bool.false_ne_true (present.symm.trans ((folds.has_iff field.1).mpr some))
      refine ⟨apart_iff_names.mpr ?_, fun field' member => ?_⟩
      · rw [names, List.pairwise_append]
        refine ⟨apart, List.pairwise_singleton _ _, fun name found last same => ?_⟩
        obtain ⟨old, listed, rfl⟩ := List.mem_map.mp found
        rw [List.mem_singleton.mp same]
        exact has_eq_false_iff.mp present old listed
      · have member' : field'.1 ∈ fields.map Prod.fst ++ [field.1] :=
          names ▸ List.mem_map_of_mem member
        rcases List.mem_append.mp member' with old | last
        · exact kept field'.1 old
        · rw [List.mem_singleton.mp last]
          exact ⟨before, field.2, [], rfl, new⟩

theorem spelled_foldLines (spelled : Spelled before fields) (folds : Folds before fields)
    (read : foldLines fields lines = .ok fields') :
    ∃ given, List.Forall₂ States (block lines) given ∧ Spelled (before ++ given) fields' := by
  induction lines generalizing before fields with
  | nil =>
      cases read
      exact ⟨[], .nil, by rwa [List.append_nil]⟩
  | cons line lines ih =>
      rw [foldLines] at read
      cases empty : line.isEmpty with
      | true =>
          rw [empty, if_pos rfl] at read
          cases read
          rw [block_cons_of_empty empty]
          exact ⟨[], .nil, by rwa [List.append_nil]⟩
      | false =>
          rw [block_cons empty]
          rw [empty, if_neg Bool.false_ne_true] at read
          cases split : splitLine line with
          | error e =>
              rw [split] at read
              cases read
          | ok field =>
              rw [split] at read
              rcases folds_concat folds field with ⟨fields₁, folded, folds₁⟩ | ⟨refused, _⟩
              · simp only [folded] at read
                obtain ⟨given, states, spelled'⟩ := ih (spelled.concat folds folded) folds₁ read
                refine ⟨field :: given, .cons (splitLine_eq_ok_iff.mp split) states, ?_⟩
                rwa [List.append_assoc, List.singleton_append] at spelled'
              · simp only [refused] at read
                cases read

/-- The order of fields with different names is of no account. -/
theorem find?_perm (apart : Apart fields) (perm : other.Perm fields) (n : String) :
    other.find? n = fields.find? n := by
  have apart' : Apart other :=
    perm.symm.pairwise apart fun differ => (sameName_comm _ _).trans differ
  have values := valuesOf_perm perm n
  rw [valuesOf_eq_toList apart, valuesOf_eq_toList apart'] at values
  cases found : fields.find? n with
  | none =>
      rw [found] at values
      exact Option.toList_eq_nil_iff.mp values.eq_nil
  | some value =>
      rw [found] at values
      exact Option.toList_eq_singleton_iff.mp (List.perm_singleton.mp values)

structure Folding (given : List (String × String)) (fields : Fields) : Prop extends
    Spelled given fields where
  /-- The fields may be kept in any order. -/
  unordered : ∀ other : Fields, other.Perm fields → ∀ n, other.find? n = fields.find? n
  listed : ∀ n, sameName n contentLength = false → fields.find? n = joined (valuesOf given n)
  single : ∀ n, sameName n contentLength = true →
    ∀ value ∈ valuesOf given n, fields.find? n = some value
  absent : ∀ n, valuesOf given n = [] → fields.find? n = none

theorem folding_of_folds (spelled : Spelled given fields) (folds : Folds given fields) :
    Folding given fields := by
  refine ⟨spelled, fun _ => find?_perm spelled.apart, fun n several => ?_,
    fun n single value member => ?_, fun n none => ?_⟩
  · rw [folds.find, folded, if_neg (by rw [several]; exact Bool.false_ne_true)]
  · rw [folds.find, folded, if_pos single, valuesOf_congr single]
    rw [valuesOf_congr single] at member
    cases values : valuesOf given contentLength with
    | nil => exact absurd (values ▸ member) List.not_mem_nil
    | cons first rest =>
        have listed : first ∈ valuesOf given contentLength := values ▸ List.mem_cons_self
        rw [List.head?_cons, folds.agree first listed value member]
  · rw [folds.find, folded_eq_none_iff, none]

/-- Lines are folded by what stands before the first empty one. They are accepted if and only if
each of these states a field and the content lengths are all the same text, and what they make up
has each name once, in its first spelling, with the values of its lines in order. -/
theorem ofLines_folding (lines : List (List Char)) :
    (∀ lines', block lines' = block lines → ofLines lines' = ofLines lines) ∧
      ((∃ fields, ofLines lines = .ok fields) ↔
        ∃ given, List.Forall₂ States (block lines) given ∧ Agree given) ∧
      (∀ e, ofLines lines = .error e → e = .badField) ∧
      ∀ fields, ofLines lines = .ok fields →
        ∃ given, List.Forall₂ States (block lines) given ∧ Folding given fields := by
  refine ⟨fun lines' => ofLines_congr, ⟨?_, ?_⟩, fun e refused => ?_, fun fields read => ?_⟩
  · rintro ⟨fields, read⟩
    obtain ⟨given, states, folds⟩ := states_of_ofLines read
    exact ⟨given, states, folds.agree⟩
  · rintro ⟨given, states, agree⟩
    obtain ⟨fields, read, _⟩ := ofLines_of_agree states agree
    exact ⟨fields, read⟩
  · rcases ofLines_cases lines with ⟨fields, _, read, _⟩ | ⟨refused', _⟩
    · cases refused.symm.trans read
    · cases refused.symm.trans refused'
      rfl
  · obtain ⟨given, states, folds⟩ := states_of_ofLines read
    obtain ⟨given', states', spelled⟩ := spelled_foldLines spelled_nil folds_nil read
    cases forall₂_states_unique states states'
    exact ⟨given, states, folding_of_folds spelled folds⟩

theorem ofLines_folding_accept : ∃ fields,
    ofLines (["accept: a", "Content-Length:5", "ACCEPT : b", "content-length: 5 ", "", "none"].map
      String.toList) = .ok fields ∧ fields.find? "Accept" = some "a, b" ∧
      fields.find? "content-length" = some "5" ∧ fields.find? "none" = none := by
  let lines :=
    ["accept: a", "Content-Length:5", "ACCEPT : b", "content-length: 5 ", "", "none"].map
      String.toList
  let given :=
    [("accept", "a"), ("Content-Length", "5"), ("ACCEPT", "b"), ("content-length", "5")]
  have states : List.Forall₂ States (block lines) given := forall₂_states (by decide +kernel)
  obtain ⟨_, accepted, _, spec⟩ := ofLines_folding lines
  obtain ⟨fields, read⟩ := accepted.mpr ⟨given, states, by decide +kernel⟩
  obtain ⟨given', states', folding⟩ := spec fields read
  cases forall₂_states_unique states' states
  refine ⟨fields, read, ?_, ?_, ?_⟩
  · rw [folding.listed "Accept" (by decide +kernel)]
    decide +kernel
  · exact folding.single "content-length" (by decide +kernel) "5" (by decide +kernel)
  · exact folding.absent "none" (by decide +kernel)

end Fields

end HttpExchange
