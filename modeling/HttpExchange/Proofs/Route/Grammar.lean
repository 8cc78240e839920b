import HttpExchange.Proofs.Route.Template
import Mathlib.Data.List.Count

/-!
Which texts are templates, said of the text alone: what may stand between slashes, and what the
first piece that may not stand there is refused for.
-/

namespace HttpExchange

namespace Template

open Segment (Sound isBrace write name?)

variable {text template : String} {t : Template} {e : RouteError} {name : String}
variable {piece : List Char} {pieces earlier : List (List Char)}
variable {before segments : List Segment}

def braced (name : String) : List Char := '\x7b' :: name.toList ++ ['\x7d']

def hasBrace (piece : List Char) : Bool := piece.any isBrace

/-- The text is a slash and these pieces, which slashes part. -/
structure Cut (text : String) (pieces : List (List Char)) : Prop where
  whole : text.toList = '/' :: Text.join '/' pieces
  some : pieces ≠ []
  apart : ∀ piece ∈ pieces, '/' ∉ piece

/-- A piece of a template has no braces, or it is a name in braces. -/
inductive Regular : List Char → Prop where
  | plain {piece : List Char} (noBrace : ∀ c ∈ piece, isBrace c = false) : Regular piece
  | named {name : String} (some : name ≠ "") (noBrace : ∀ c ∈ name.toList, isBrace c = false) :
      Regular (braced name)

/-- The pieces of a template. No name occurs twice. -/
structure Grammatical (pieces : List (List Char)) : Prop where
  regular : ∀ piece ∈ pieces, Regular piece
  once : ∀ name, pieces.count (braced name) ≤ 1

/-- What a piece is refused for behind others. -/
inductive Offends (template : String) (earlier : List (List Char)) :
    List Char → RouteError → Prop where
  | empty : Offends template earlier ['\x7b', '\x7d'] (.emptyParameter template)
  | again {name : String} (some : name ≠ "") (noBrace : ∀ c ∈ name.toList, isBrace c = false)
      (member : braced name ∈ earlier) :
      Offends template earlier (braced name) (.duplicateParameter template name)
  | brace {piece : List Char} (irregular : ¬ Regular piece) (some : piece ≠ ['\x7b', '\x7d']) :
      Offends template earlier piece (.badSegment template (String.ofList piece))

/-- What a text is refused for: that it does not start with a slash, or the first piece that does
not fit behind those before it. -/
inductive Refused (text : String) : RouteError → Prop where
  | slash (missing : ∀ rest, text.toList ≠ '/' :: rest) : Refused text (.missingSlash text)
  | piece {front back : List (List Char)} {piece : List Char} {e : RouteError}
      (cut : Cut text (front ++ piece :: back)) (before : Grammatical front)
      (offends : Offends text front piece e) : Refused text e

theorem braced_injective : Function.Injective braced := by
  intro name other same
  exact String.toList_inj.mp (List.append_cancel_right (List.cons.inj same).2)

theorem regular_iff : Regular piece ↔ ∃ segment, segment.Sound ∧ write segment = piece := by
  constructor
  · intro regular
    cases regular with
    | plain noBrace =>
        have same : (String.ofList piece).toList = piece := String.toList_ofList
        exact ⟨.literal (String.ofList piece), .literal (same.symm ▸ noBrace), same⟩
    | @named name some noBrace => exact ⟨.parameter name, .parameter some noBrace, rfl⟩
  · rintro ⟨segment, sound, rfl⟩
    cases sound with
    | literal noBrace => exact .plain noBrace
    | parameter some noBrace => exact .named some noBrace

/-- In sound segments the pieces with braces are the names, in their order. -/
theorem names_braced (sound : ∀ segment ∈ segments, segment.Sound) :
    (segments.filterMap name?).map braced = (segments.map write).filter hasBrace := by
  induction segments with
  | nil => rfl
  | cons segment segments ih =>
      rw [List.forall_mem_cons] at sound
      cases sound.1 with
      | @literal text noBrace =>
          have none : ¬ hasBrace (write (.literal text)) = true :=
            Bool.eq_false_iff.mp (Segment.any_isBrace_eq_false.mpr noBrace)
          rw [List.filterMap_cons_none rfl, List.map_cons, List.filter_cons_of_neg none, ih sound.2]
      | @parameter name some noBrace =>
          have named : (Segment.parameter name :: segments).filterMap name? =
              name :: segments.filterMap name? := rfl
          have brace : hasBrace (write (.parameter name)) = true := rfl
          rw [named, List.map_cons, List.map_cons, List.filter_cons_of_pos brace, ih sound.2]
          rfl

theorem count_braced (sound : ∀ segment ∈ segments, segment.Sound) (name : String) :
    (segments.map write).count (braced name) = (segments.filterMap name?).count name := by
  calc (segments.map write).count (braced name)
      = ((segments.map write).filter hasBrace).count (braced name) :=
        (List.count_filter (show hasBrace (braced name) = true from rfl)).symm
    _ = ((segments.filterMap name?).map braced).count (braced name) := by rw [names_braced sound]
    _ = (segments.filterMap name?).count name :=
        List.count_map_of_injective _ braced braced_injective name

theorem braced_mem_iff (sound : ∀ segment ∈ segments, segment.Sound) :
    braced name ∈ segments.map write ↔ .parameter name ∈ segments := by
  rw [← List.count_pos_iff, count_braced sound, List.count_pos_iff, Segment.mem_names_iff]

theorem segments_of_regular (regular : ∀ piece ∈ pieces, Regular piece) :
    ∃ segments : List Segment,
      (∀ segment ∈ segments, segment.Sound) ∧ segments.map write = pieces := by
  induction pieces with
  | nil => exact ⟨[], List.forall_mem_nil _, rfl⟩
  | cons piece pieces ih =>
      rw [List.forall_mem_cons] at regular
      obtain ⟨segment, first, rfl⟩ := regular_iff.mp regular.1
      obtain ⟨segments, rest, rfl⟩ := ih regular.2
      exact ⟨segment :: segments, List.forall_mem_cons.mpr ⟨first, rest⟩, rfl⟩

theorem grammatical_iff : Grammatical pieces ↔
    ∃ segments : List Segment, segments.map write = pieces ∧
      (∀ segment ∈ segments, segment.Sound) ∧ (segments.filterMap name?).Nodup := by
  constructor
  · rintro ⟨regular, once⟩
    obtain ⟨segments, sound, rfl⟩ := segments_of_regular regular
    refine ⟨segments, rfl, sound, List.nodup_iff_count_le_one.mpr fun name => ?_⟩
    rw [← count_braced sound]
    exact once name
  · rintro ⟨segments, rfl, sound, once⟩
    refine ⟨List.forall_mem_map.mpr fun segment member => ?_, fun name => ?_⟩
    · exact regular_iff.mpr ⟨segment, sound segment member, rfl⟩
    · rw [count_braced sound]
      exact List.nodup_iff_count_le_one.mp once name

theorem cut_iff {rest : List Char} (slash : text.toList = '/' :: rest) :
    Cut text pieces ↔ Text.splitOn '/' rest = pieces := by
  rw [Text.splitOn_eq_iff]
  constructor
  · rintro ⟨whole, some, apart⟩
    exact ⟨(List.cons.inj (slash.symm.trans whole)).2, some, apart⟩
  · rintro ⟨rfl, some, apart⟩
    exact ⟨slash, some, apart⟩

theorem Offends.congr {others : List (List Char)} (offends : Offends template earlier piece e)
    (same : ∀ x, x ∈ earlier → x ∈ others) : Offends template others piece e := by
  cases offends with
  | empty => exact .empty
  | again some noBrace member => exact .again some noBrace (same _ member)
  | brace irregular some => exact .brace irregular some

theorem parse_irregular (irregular : ¬ Regular piece) (some : piece ≠ ['\x7b', '\x7d']) :
    Segment.parse template before piece =
      .error (.badSegment template (String.ofList piece)) := by
  rw [Segment.parse]
  split
  · next found => exact absurd (Segment.inner?_eq_some_iff.mp found) some
  · next name named found =>
      have same : piece = braced (String.ofList name) := by
        rw [Segment.inner?_eq_some_iff.mp found, braced, String.toList_ofList]
      have brace : name.any isBrace = true := by
        rw [← Bool.not_eq_false, Segment.any_isBrace_eq_false]
        intro noBrace
        refine irregular (same ▸ .named ?_ ?_)
        · exact fun empty => named (String.ofList_eq_empty_iff.mp empty)
        · rwa [String.toList_ofList]
      rw [if_pos brace]
  · have brace : piece.any isBrace = true := by
      rw [← Bool.not_eq_false, Segment.any_isBrace_eq_false]
      exact fun noBrace => irregular (.plain noBrace)
    rw [if_pos brace]

/-- A piece behind sound segments is refused for what it offends by. -/
theorem parsePiece_eq_error_iff (sound : ∀ segment ∈ before, segment.Sound) :
    Segment.parse template before piece = .error e ↔
      Offends template (before.map write) piece e := by
  constructor
  · intro refused
    by_cases regular : Regular piece
    · cases regular with
      | plain noBrace => cases (Segment.parse_literal noBrace).symm.trans refused
      | @named name some noBrace =>
          rw [braced, Segment.parse_parameter (mt String.toList_eq_nil_iff.mp some) noBrace,
            String.ofList_toList] at refused
          split at refused
          · next member =>
              cases refused
              exact .again some noBrace
                ((braced_mem_iff sound).mpr (List.contains_iff_mem.mp member))
          · cases refused
    · by_cases empty : piece = ['\x7b', '\x7d']
      · subst empty
        cases refused
        exact .empty
      · cases (parse_irregular regular empty).symm.trans refused
        exact .brace regular empty
  · intro offends
    cases offends with
    | empty => rfl
    | @again name some noBrace member =>
        have known : before.contains (.parameter name) = true :=
          List.contains_iff_mem.mpr ((braced_mem_iff sound).mp member)
        rw [braced, Segment.parse_parameter (mt String.toList_eq_nil_iff.mp some) noBrace,
          String.ofList_toList, if_pos known]
    | brace irregular some => exact parse_irregular irregular some

/-- The error is that of the first piece that does not fit behind those before it. -/
theorem parseOnto_eq_error_iff (sound : ∀ segment ∈ before, segment.Sound) :
    parseOnto template before pieces = .error e ↔
      ∃ front piece back, pieces = front ++ piece :: back ∧
        (∃ segments, parseOnto template before front = .ok segments) ∧
        Offends template (before.map write ++ front) piece e := by
  induction pieces generalizing before with
  | nil =>
      refine ⟨fun refused => (by cases refused), ?_⟩
      rintro ⟨front, piece, back, none, _⟩
      exact absurd none.symm (List.append_ne_nil_of_right_ne_nil front (List.cons_ne_nil _ _))
  | cons piece pieces ih =>
      simp only [List.cons_eq_append_iff]
      rw [parseOnto]
      cases first : Segment.parse template before piece with
      | error other =>
          constructor
          · intro refused
            cases refused
            refine ⟨[], piece, pieces, .inl ⟨rfl, rfl⟩, ⟨before.reverse, by rw [parseOnto]⟩, ?_⟩
            rw [List.append_nil]
            exact (parsePiece_eq_error_iff sound).mp first
          · rintro ⟨_, _, _, ⟨rfl, same⟩ | ⟨front, rfl, same⟩, ⟨segments, read⟩, offends⟩
            · cases same
              rw [List.append_nil] at offends
              cases first.symm.trans ((parsePiece_eq_error_iff sound).mpr offends)
              rfl
            · rw [parseOnto, first] at read
              cases read
      | ok segment =>
          obtain ⟨written, fits, _⟩ := Segment.parse_eq_ok_iff.mp first
          have sounds : ∀ other ∈ segment :: before, other.Sound :=
            List.forall_mem_cons.mpr ⟨fits, sound⟩
          have same : ∀ front x, x ∈ (segment :: before).map write ++ front ↔
              x ∈ before.map write ++ piece :: front := by
            intro front x
            rw [List.map_cons, written]
            exact List.perm_middle.symm.mem_iff
          show parseOnto template (segment :: before) pieces = .error e ↔ _
          rw [ih sounds]
          constructor
          · rintro ⟨front, last, back, rfl, read, offends⟩
            refine ⟨piece :: front, last, back, .inr ⟨front, rfl, rfl⟩, ?_, ?_⟩
            · rwa [parseOnto, first]
            · exact offends.congr fun x => (same front x).mp
          · rintro ⟨_, last, back, ⟨rfl, here⟩ | ⟨front, rfl, here⟩, read, offends⟩
            · cases here
              rw [List.append_nil] at offends
              cases first.symm.trans ((parsePiece_eq_error_iff sound).mpr offends)
            · rw [parseOnto, first] at read
              exact ⟨front, last, back, here, read, offends.congr fun x => (same front x).mpr⟩

theorem readPieces_iff : (∃ segments, parseOnto template [] pieces = .ok segments) ↔
    Grammatical pieces := by
  simp only [readPieces_eq_ok_iff, grammatical_iff]

theorem parse_of_slash {rest : List Char} (slash : text.toList = '/' :: rest) :
    parse text = .error e ↔ parseOnto text [] (Text.splitOn '/' rest) = .error e := by
  rw [parse]
  simp only [slash]
  cases parseOnto text [] (Text.splitOn '/' rest) with
  | error other => simp only [Except.map, Except.error.injEq]
  | ok segments =>
      constructor
      · intro refused
        cases refused
      · intro refused
        cases refused

theorem parse_of_noSlash (missing : ∀ rest, text.toList ≠ '/' :: rest) :
    parse text = .error (.missingSlash text) := by
  rw [parse]
  split
  · next rest slash => exact absurd slash (missing rest)
  · rfl

theorem parse_eq_error_iff : parse text = .error e ↔ Refused text e := by
  constructor
  · intro refused
    by_cases slash : ∃ rest, text.toList = '/' :: rest
    · obtain ⟨rest, slash⟩ := slash
      rw [parse_of_slash slash, parseOnto_eq_error_iff (List.forall_mem_nil _)] at refused
      obtain ⟨front, piece, back, cut, read, offends⟩ := refused
      exact .piece ((cut_iff slash).mpr cut) (readPieces_iff.mp read) offends
    · rw [not_exists] at slash
      cases (parse_of_noSlash slash).symm.trans refused
      exact .slash slash
  · intro refused
    cases refused with
    | slash missing => exact parse_of_noSlash missing
    | piece cut before offends =>
        have slash := cut.whole
        rw [parse_of_slash slash, parseOnto_eq_error_iff (List.forall_mem_nil _)]
        exact ⟨_, _, _, (cut_iff slash).mp cut, readPieces_iff.mpr before, offends⟩

theorem parse_ok_iff :
    (∃ t, parse text = .ok t) ↔ ∃ pieces, Cut text pieces ∧ Grammatical pieces := by
  constructor
  · rintro ⟨t, read⟩
    obtain ⟨_, some, whole, apart, sound, once⟩ := parse_eq_ok_iff.mp read
    refine ⟨t.segments.map write, ⟨whole, mt List.map_eq_nil_iff.mp some, ?_⟩, ?_⟩
    · exact List.forall_mem_map.mpr apart
    · exact grammatical_iff.mpr ⟨t.segments, rfl, sound, once⟩
  · rintro ⟨pieces, ⟨whole, some, apart⟩, grammatical⟩
    obtain ⟨segments, rfl, sound, once⟩ := grammatical_iff.mp grammatical
    exact ⟨⟨text, segments⟩, parse_eq_ok_iff.mpr ⟨rfl, mt List.map_eq_nil_iff.mpr some, whole,
      fun segment member => apart _ (List.mem_map_of_mem member), sound, once⟩⟩

/-- A text is a template exactly if it is a slash and grammatical pieces parted by slashes. The
segments of the template are these pieces, and its parameters the names in braces among them, in
their order and each once. Any other text is refused for the first thing that is wrong with it. -/
theorem parse_grammar (text : String) :
    ((∃ t, parse text = .ok t) ↔ ∃ pieces, Cut text pieces ∧ Grammatical pieces) ∧
    (∀ t, parse text = .ok t → t.text = text ∧
      text.toList = '/' :: Text.join '/' (t.segments.map write) ∧
      (∀ pieces, Cut text pieces → t.segments.map write = pieces ∧
        t.parameters.map braced = pieces.filter hasBrace) ∧ t.parameters.Nodup) ∧
    ∀ e, parse text = .error e ↔ Refused text e := by
  refine ⟨parse_ok_iff, fun t read => ?_, fun e => parse_eq_error_iff⟩
  obtain ⟨same, some, whole, apart, sound, once⟩ := parse_eq_ok_iff.mp read
  refine ⟨same, whole, fun pieces cut => ?_, once⟩
  have own : Cut text (t.segments.map write) :=
    ⟨whole, mt List.map_eq_nil_iff.mp some, List.forall_mem_map.mpr apart⟩
  have written : t.segments.map write = pieces :=
    ((cut_iff whole).mp own).symm.trans ((cut_iff whole).mp cut)
  exact ⟨written, written ▸ names_braced sound⟩

/-- A name in braces is a parameter. Where it comes again the text is refused for that, whatever is
wrong behind it. -/
theorem parse_grammar_id :
    let t : Template := ⟨"/users/\x7bid\x7d", [.literal "users", .parameter "id"]⟩
    let again := "/\x7bid\x7d/x/\x7bid\x7d/\x7b\x7d"
    parse t.text = .ok t ∧
      (∃ pieces, Cut t.text pieces ∧ Grammatical pieces ∧ t.parameters.map braced =
        pieces.filter hasBrace) ∧
      Refused again (.duplicateParameter again "id") := by
  intro t again
  have read : parse t.text = .ok t := by decide
  obtain ⟨accepts, reads, _⟩ := parse_grammar t.text
  obtain ⟨pieces, cut, grammatical⟩ := accepts.mp ⟨t, read⟩
  obtain ⟨_, _, named, _⟩ := reads t read
  have refused : parse again = .error (.duplicateParameter again "id") := by decide
  exact ⟨read, ⟨pieces, cut, grammatical, (named pieces cut).2⟩,
    ((parse_grammar again).2.2 _).mp refused⟩

end Template

end HttpExchange
