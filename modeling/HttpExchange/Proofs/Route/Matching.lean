import HttpExchange.Proofs.Route.Template

/-!
Matching a path undoes putting values into a template: it finds the values for which the text of
the template becomes the path, and there are no others.
-/

namespace HttpExchange

open Segment (isBrace write fill name?)

variable {value : String → String} {text path : List Char} {c : Char}

/-- The path is the text with the value of a name wherever it stands in braces. -/
inductive Filled (value : String → String) : List Char → List Char → Prop where
  | none : Filled value [] []
  | plain {c : Char} {text path : List Char} (noBrace : isBrace c = false)
      (behind : Filled value text path) : Filled value (c :: text) (c :: path)
  | hole {name : String} {text path : List Char} (noBrace : ∀ c ∈ name.toList, isBrace c = false)
      (behind : Filled value text path) :
      Filled value ('\x7b' :: (name.toList ++ '\x7d' :: text)) ((value name).toList ++ path)

namespace Filled

theorem nil_iff : Filled value [] path ↔ path = [] := by
  constructor
  · intro filled
    cases filled
    rfl
  · rintro rfl
    exact .none

theorem cons_iff (noBrace : isBrace c = false) :
    Filled value (c :: text) path ↔ ∃ rest, path = c :: rest ∧ Filled value text rest := by
  constructor
  · intro filled
    cases filled with
    | plain _ behind => exact ⟨_, rfl, behind⟩
    | hole => exact absurd noBrace (by decide)
  · rintro ⟨rest, rfl, behind⟩
    exact .plain noBrace behind

theorem append_iff {front : List Char} (noBrace : ∀ c ∈ front, isBrace c = false) :
    Filled value (front ++ text) path ↔ ∃ rest, path = front ++ rest ∧ Filled value text rest := by
  induction front generalizing path with
  | nil => simp only [List.nil_append, exists_eq_left']
  | cons c front ih =>
      rw [List.forall_mem_cons] at noBrace
      rw [List.cons_append, cons_iff noBrace.1]
      simp only [ih noBrace.2, List.cons_append]
      constructor
      · rintro ⟨_, rfl, rest, rfl, behind⟩
        exact ⟨rest, rfl, behind⟩
      · rintro ⟨rest, rfl, behind⟩
        exact ⟨_, rfl, rest, rfl, behind⟩

/-- The name that a brace opens ends at the next one. -/
theorem hole_iff {name : String} (noBrace : ∀ c ∈ name.toList, isBrace c = false) :
    Filled value ('\x7b' :: (name.toList ++ '\x7d' :: text)) path ↔
      ∃ rest, path = (value name).toList ++ rest ∧ Filled value text rest := by
  have noEnd {name : String} (noBrace : ∀ c ∈ name.toList, isBrace c = false) :
      '\x7d' ∉ name.toList := fun member => absurd (noBrace _ member) (by decide)
  constructor
  · intro filled
    generalize whole : name.toList ++ '\x7d' :: text = behind at filled
    cases filled with
    | plain brace => exact absurd brace (by decide)
    | @hole name' text' rest noBrace' behind =>
        -- Both names end where the text is cut at the first closing brace.
        have same := Text.cut_append (noEnd noBrace) text
        rw [whole, Text.cut_append (noEnd noBrace')] at same
        obtain ⟨names, texts⟩ := Prod.mk.inj (Option.some.inj same)
        rw [← texts, ← String.toList_inj.mp names]
        exact ⟨rest, rfl, behind⟩
  · rintro ⟨rest, rfl, behind⟩
    exact .hole noBrace behind

theorem write_iff {segment : Segment} (sound : segment.Sound) :
    Filled value (segment.write ++ text) path ↔
      ∃ rest, path = segment.fill value ++ rest ∧ Filled value text rest := by
  cases sound with
  | literal noBrace => exact append_iff noBrace
  | parameter some noBrace =>
      rw [write, List.cons_append, List.cons_append, List.append_assoc]
      exact hole_iff noBrace

theorem join_iff {segments : List Segment} (sound : ∀ segment ∈ segments, segment.Sound) :
    Filled value (Text.join '/' (segments.map write)) path ↔
      path = Text.join '/' (segments.map (fill value)) := by
  induction segments generalizing path with
  | nil => exact nil_iff
  | cons segment segments ih =>
      rw [List.forall_mem_cons] at sound
      cases segments with
      | nil =>
          have first : Filled value (segment.write ++ []) path ↔ path = segment.fill value := by
            rw [write_iff sound.1]
            simp only [nil_iff, exists_eq_right, List.append_nil]
          rwa [List.append_nil] at first
      | cons next segments =>
          have slash : isBrace '/' = false := by decide
          have joined (f : Segment → List Char) :
              Text.join '/' ((segment :: next :: segments).map f) =
                f segment ++ '/' :: Text.join '/' ((next :: segments).map f) :=
            Text.join_cons (List.cons_ne_nil _ _) _
          rw [joined, joined, write_iff sound.1]
          simp only [cons_iff slash, ih sound.2]
          constructor
          · rintro ⟨_, rfl, _, rfl, rfl⟩
            rfl
          · rintro rfl
            exact ⟨_, rfl, _, rfl, rfl⟩

end Filled

namespace Template

variable {t : Template} {segments : List Segment} {pieces : List (List Char)}
variable {params given : List (String × String)}

def valueIn (params : List (String × String)) (name : String) : String :=
  (params.lookup name).getD ""

/-- Values for the parameters of a template and for nothing else. A value fits in a segment. -/
structure Assigns (t : Template) (params : List (String × String)) : Prop where
  names : ∀ name, name ∈ params.map Prod.fst ↔ name ∈ t.parameters
  once : (params.map Prod.fst).Nodup
  fits : ∀ param ∈ params, param.2 ≠ "" ∧ '/' ∉ param.2.toList

theorem valueIn_of_mem (once : (params.map Prod.fst).Nodup) {param : String × String}
    (member : param ∈ params) : valueIn params param.1 = param.2 := by
  induction params with
  | nil => exact absurd member List.not_mem_nil
  | cons first params ih =>
      rw [List.map_cons, List.nodup_cons] at once
      rcases List.mem_cons.mp member with rfl | later
      · rw [valueIn, List.lookup_cons_self, Option.getD_some]
      · have other : param.1 ≠ first.1 := fun same =>
          once.1 (same ▸ List.mem_map_of_mem later)
        rw [← ih once.2 later, valueIn, valueIn, List.lookup_cons, beq_false_of_ne other]

theorem filled_iff_substitute {written path : String} (reads : Reads written t) :
    Filled value written.toList path.toList ↔ path = t.substitute value := by
  rw [reads.whole, Filled.cons_iff (by decide), substitute, ← String.toList_inj,
    String.toList_ofList]
  simp only [Filled.join_iff reads.sound, exists_eq_right]

theorem matchSegments_fill (given : ∀ name ∈ segments.filterMap name?, value name ≠ "") :
    matchSegments segments (segments.map (fill value)) =
      some ((segments.filterMap name?).map fun name => (name, value name)) := by
  induction segments with
  | nil => rfl
  | cons segment segments ih =>
      cases segment with
      | literal text =>
          rw [List.map_cons, fill, matchSegments, if_pos rfl, ih given]
          rfl
      | parameter name =>
          have named : (Segment.parameter name :: segments).filterMap name? =
              name :: segments.filterMap name? := rfl
          rw [named, List.forall_mem_cons] at given
          rw [named, List.map_cons, fill, matchSegments, ih given.2,
            if_neg (mt (String.toList_eq_nil_iff.mp ∘ List.isEmpty_iff.mp) given.1),
            String.ofList_toList]
          rfl

/-- Any way to look up what was found fills the segments with the pieces. -/
theorem of_matchSegments (matched : matchSegments segments pieces = some params) :
    params.map Prod.fst = segments.filterMap name? ∧
      (∀ param ∈ params, param.2 ≠ "" ∧ param.2.toList ∈ pieces) ∧
      ∀ value : String → String, (∀ param ∈ params, value param.1 = param.2) →
        pieces = segments.map (fill value) := by
  fun_induction matchSegments segments pieces generalizing params with
  | case1 =>
      cases matched
      exact ⟨rfl, List.forall_mem_nil _, fun _ _ => rfl⟩
  | case2 text segments pieces ih =>
      obtain ⟨names, values, filled⟩ := ih matched
      refine ⟨names, fun param member => ?_, fun value agrees => ?_⟩
      · exact ⟨(values param member).1, List.mem_cons_of_mem _ (values param member).2⟩
      · rw [filled value agrees]
        rfl
  | case3 => cases matched
  | case4 => cases matched
  | case5 name segments piece pieces some ih =>
      obtain ⟨behind, found, rfl⟩ := Option.map_eq_some_iff.mp matched
      obtain ⟨names, values, filled⟩ := ih found
      have first : (String.ofList piece).toList = piece := String.toList_ofList
      refine ⟨by rw [List.map_cons, names]; rfl, List.forall_mem_cons.mpr ⟨?_, ?_⟩, ?_⟩
      · refine ⟨fun empty => some ?_, first.symm ▸ List.mem_cons_self⟩
        rw [String.ofList_eq_empty_iff.mp empty]
        rfl
      · intro param member
        exact ⟨(values param member).1, List.mem_cons_of_mem _ (values param member).2⟩
      · intro value agrees
        rw [List.forall_mem_cons] at agrees
        rw [List.map_cons, fill, agrees.1, first, ← filled value agrees.2]
  | case6 => cases matched

theorem valueIn_fits (assigns : t.Assigns params) : ∀ name ∈ t.parameters,
    valueIn params name ≠ "" ∧ '/' ∉ (valueIn params name).toList := by
  intro name member
  obtain ⟨param, given, rfl⟩ := List.mem_map.mp ((assigns.names name).mpr member)
  rw [valueIn_of_mem assigns.once given]
  exact assigns.fits param given

/-- What was put into a template is found in the path, in the order of the names. -/
theorem match?_substitute {written : String} (reads : Reads written t)
    (fits : ∀ name ∈ t.parameters, value name ≠ "" ∧ '/' ∉ (value name).toList) :
    t.match? (t.substitute value) = some (t.parameters.map fun name => (name, value name)) := by
  have apart : ∀ piece ∈ t.segments.map (fill value), '/' ∉ piece := by
    rw [List.forall_mem_map]
    intro segment member
    cases segment with
    | literal text => exact reads.apart _ member
    | parameter name => exact (fits name (Segment.mem_names_iff.mpr member)).2
  have pieces : Text.splitOn '/' (Text.join '/' (t.segments.map (fill value))) =
      t.segments.map (fill value) :=
    Text.splitOn_join (mt List.map_eq_nil_iff.mp reads.some) apart
  rw [match?, substitute, String.toList_ofList]
  simp only [pieces]
  exact matchSegments_fill fun name member => (fits name member).1

theorem of_match? {written path : String} (reads : Reads written t)
    (matched : t.match? path = some params) :
    t.Assigns params ∧ path = t.substitute (valueIn params) := by
  rw [match?] at matched
  split at matched
  · next rest whole =>
      obtain ⟨names, values, filled⟩ := of_matchSegments matched
      have once : (params.map Prod.fst).Nodup := names ▸ reads.once
      refine ⟨⟨fun name => names ▸ Iff.rfl, once, fun param member => ?_⟩, ?_⟩
      · exact ⟨(values param member).1, Text.notMem_of_mem_splitOn _ (values param member).2⟩
      · have pieces := filled (valueIn params) fun param member => valueIn_of_mem once member
        rw [← String.toList_inj, whole, substitute, String.toList_ofList, ← pieces,
          Text.join_splitOn]
  · cases matched

theorem Assigns.perm (assigns : t.Assigns given) (once : t.parameters.Nodup) :
    given.Perm (t.parameters.map fun name => (name, valueIn given name)) := by
  have same : given = (given.map Prod.fst).map fun name => (name, valueIn given name) := by
    rw [List.map_map]
    refine (List.map_id given).symm.trans (List.map_congr_left fun param member => ?_)
    exact Prod.ext rfl (valueIn_of_mem assigns.once member).symm
  have names : (given.map Prod.fst).Perm t.parameters :=
    (List.perm_ext_iff_of_nodup assigns.once once).mpr assigns.names
  exact (List.Perm.of_eq same).trans (names.map _)

/-- The values that are found in a path are those, and the only ones, with which the text of the
template becomes the path. Where there are no such values, nothing is found. -/
theorem match_undoes_filling {text path : String} (read : parse text = .ok t) :
    (∀ params, t.match? path = some params →
      t.Assigns params ∧ Filled (valueIn params) text.toList path.toList ∧
        ∀ given, t.Assigns given → Filled (valueIn given) text.toList path.toList →
          given.Perm params) ∧
    (t.match? path = none ↔
      ∀ given, t.Assigns given → ¬ Filled (valueIn given) text.toList path.toList) := by
  have reads := parse_eq_ok_iff.mp read
  have found {given} (assigns : t.Assigns given)
      (filled : Filled (valueIn given) text.toList path.toList) :
      t.match? path = some (t.parameters.map fun name => (name, valueIn given name)) := by
    rw [(filled_iff_substitute reads).mp filled]
    exact match?_substitute reads (valueIn_fits assigns)
  refine ⟨fun params matched => ?_, fun none given assigns filled => ?_, fun none => ?_⟩
  · obtain ⟨assigns, filled⟩ := of_match? reads matched
    refine ⟨assigns, (filled_iff_substitute reads).mpr filled, fun given assigns filled => ?_⟩
    rw [Option.some.inj (matched.symm.trans (found assigns filled))]
    exact assigns.perm reads.once
  · cases none.symm.trans (found assigns filled)
  · rw [Option.eq_none_iff_forall_ne_some]
    intro params matched
    obtain ⟨assigns, filled⟩ := of_match? reads matched
    exact none params assigns ((filled_iff_substitute reads).mpr filled)

theorem match_undoes_filling_posts :
    let t : Template := ⟨"/users/\x7buser\x7d/posts/\x7bpost\x7d",
      [.literal "users", .parameter "user", .literal "posts", .parameter "post"]⟩
    parse "/users/\x7buser\x7d/posts/\x7bpost\x7d" = .ok t ∧
      Filled (valueIn [("user", "42"), ("post", "7")])
        "/users/\x7buser\x7d/posts/\x7bpost\x7d".toList "/users/42/posts/7".toList ∧
      ∀ given, t.Assigns given →
        ¬ Filled (valueIn given) "/users/\x7buser\x7d/posts/\x7bpost\x7d".toList
          "/users/42/posts/".toList := by
  intro t
  have read : parse "/users/\x7buser\x7d/posts/\x7bpost\x7d" = .ok t := by decide
  refine ⟨read, ?_, ?_⟩
  · exact ((match_undoes_filling read).1 [("user", "42"), ("post", "7")] (by decide)).2.1
  · exact (match_undoes_filling read).2.mp (by decide)

end Template

end HttpExchange
