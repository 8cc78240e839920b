import HttpExchange.Proofs.Head.Accepting

/-!
When a request is taken to ask for the end of its connection. A single line may ask for it, or for
the opposite. Several lines are folded into a list, which is neither of the two words, and then the
version decides.
-/

namespace HttpExchange

open Fields (Folds valuesOf joined folded)

variable {given : List (String × String)} {values : List String} {text name : String}

theorem foldChar_comma : foldChar ',' = ',' := by decide

theorem sameName_eq_false_of_comma (comma : ',' ∈ text.toList) (free : ',' ∉ foldCase name) :
    sameName text name = false := by
  rw [Bool.eq_false_iff]
  intro same
  have folded : foldChar ',' ∈ foldCase text := List.mem_map_of_mem comma
  rw [foldChar_comma, sameName_iff.mp same] at folded
  exact free folded

theorem comma_mem_of_joined (several : 2 ≤ values.length) (found : joined values = some text) :
    ',' ∈ text.toList := by
  rcases List.eq_nil_or_concat' values with rfl | ⟨init, last, rfl⟩
  · exact absurd several (by decide)
  · rw [List.length_append, List.length_singleton] at several
    have some : init ≠ [] := List.ne_nil_of_length_pos (by omega)
    rw [Fields.joined_concat] at found
    cases front : joined init with
    | none => exact absurd (Fields.joined_eq_none.mp front) some
    | some old =>
        rw [front] at found
        cases found
        rw [Option.elim_some, String.toList_append, String.toList_append]
        exact List.mem_append_left _ (List.mem_append_right _ (by decide))

def AsksToClose (given : List (String × String)) : Prop :=
  ∃ value ∈ valuesOf given Fields.connection, sameName value "close" = true

/-- The only line about the connection says this word. -/
def SaysOnly (given : List (String × String)) (word : String) : Prop :=
  ∃ value, valuesOf given Fields.connection = [value] ∧ sameName value word = true

namespace RequestHead

variable {head : RequestHead}

theorem wantsClose_iff (folds : Folds given head.fields) : head.wantsClose = true ↔
    SaysOnly given "close" ∨ head.version = .http10 ∧ ¬ SaysOnly given "keep-alive" := by
  have field : head.field? Fields.connection = joined (valuesOf given Fields.connection) := by
    rw [field?, folds.find, folded, if_neg (by decide)]
  rw [wantsClose, field, SaysOnly, SaysOnly]
  rcases valuesOf given Fields.connection with _ | ⟨value, _ | ⟨other, rest⟩⟩
  · simp [joined]
  · simp only [joined, String.intercalate_singleton, List.cons.injEq, and_true, exists_eq_left']
    cases close : sameName value "close" with
    | true => simp
    | false => cases keep : sameName value "keep-alive" <;> simp
  · obtain ⟨text, found⟩ : ∃ text, joined (value :: other :: rest) = some text := ⟨_, rfl⟩
    have several : 2 ≤ (value :: other :: rest).length := Nat.le_add_left 2 rest.length
    have comma := comma_mem_of_joined several found
    rw [found]
    simp only [sameName_eq_false_of_comma comma (show ',' ∉ foldCase "close" by decide),
      sameName_eq_false_of_comma comma (show ',' ∉ foldCase "keep-alive" by decide)]
    simp

/-- A line that asks for the end of the connection is heeded where no other line is about it, and
where the version asks for it anyway. -/
theorem wantsClose_iff_of_asks (folds : Folds given head.fields) (asks : AsksToClose given) :
    head.wantsClose = true ↔
      (valuesOf given Fields.connection).length = 1 ∨ head.version = .http10 := by
  obtain ⟨value, listed, close⟩ := asks
  have said : (valuesOf given Fields.connection).length = 1 → SaysOnly given "close" := by
    intro one
    obtain ⟨only, values⟩ := List.length_eq_one_iff.mp one
    rw [values, List.mem_singleton] at listed
    exact ⟨only, values, listed ▸ close⟩
  rw [wantsClose_iff folds]
  constructor
  · rintro (⟨only, values, _⟩ | ⟨version, _⟩)
    · exact .inl (congrArg List.length values)
    · exact .inr version
  · rintro (one | version)
    · exact .inl (said one)
    · by_cases one : (valuesOf given Fields.connection).length = 1
      · exact .inl (said one)
      · exact .inr ⟨version, fun ⟨only, values, _⟩ => one (congrArg List.length values)⟩

end RequestHead

end HttpExchange
