import HttpExchange.Proofs.Text.Split
import HttpExchange.Route.Template
import Mathlib.Data.List.Nodup

/-!
What a template is made of. The text of a template that can be read is put together from its
segments in one way, and its parameters have different names.
-/

namespace HttpExchange

namespace Segment

variable {template : String} {before segments : List Segment} {segment : Segment}
variable {piece : List Char} {pieces : List (List Char)}

/-- A segment that may be written: a name is not empty, and braces stand around it only. -/
inductive Sound : Segment → Prop where
  | literal {text : String} (noBrace : ∀ c ∈ text.toList, isBrace c = false) : Sound (.literal text)
  | parameter {name : String} (some : name ≠ "") (noBrace : ∀ c ∈ name.toList, isBrace c = false) :
      Sound (.parameter name)

theorem inner?_eq_some_iff {name : List Char} :
    inner? piece = some name ↔ piece = '\x7b' :: name ++ ['\x7d'] := by
  constructor
  · intro found
    cases piece with
    | nil => cases found
    | cons c rest =>
        rw [inner?] at found
        split at found
        · next braces =>
            cases found
            rw [braces.1, List.cons_append, List.dropLast_append_getLast? _ braces.2]
        · cases found
  · rintro rfl
    rw [List.cons_append, inner?, if_pos ⟨rfl, List.getLast?_concat⟩, List.dropLast_concat]

theorem inner?_of_noBrace (noBrace : ∀ c ∈ piece, isBrace c = false) : inner? piece = none := by
  rw [Option.eq_none_iff_forall_ne_some]
  intro name found
  rw [inner?_eq_some_iff.mp found] at noBrace
  exact absurd (noBrace '\x7b' List.mem_cons_self) (by decide)

theorem any_isBrace_eq_false : piece.any isBrace = false ↔ ∀ c ∈ piece, isBrace c = false := by
  simp only [List.any_eq_false, Bool.not_eq_true]

theorem parse_literal (noBrace : ∀ c ∈ piece, isBrace c = false) :
    parse template before piece = .ok (.literal (String.ofList piece)) := by
  rw [parse, inner?_of_noBrace noBrace]
  simp only [any_isBrace_eq_false.mpr noBrace, Bool.false_eq_true, if_false]

theorem parse_parameter {name : List Char} (some : name ≠ [])
    (noBrace : ∀ c ∈ name, isBrace c = false) :
    parse template before ('\x7b' :: name ++ ['\x7d']) =
      if before.contains (.parameter (String.ofList name)) then
        .error (.duplicateParameter template (String.ofList name))
      else .ok (.parameter (String.ofList name)) := by
  rw [parse, inner?_eq_some_iff.mpr rfl]
  cases name with
  | nil => exact absurd rfl some
  | cons c name => simp only [any_isBrace_eq_false.mpr noBrace, Bool.false_eq_true, if_false]

theorem sound_of_parse (read : parse template before piece = .ok segment) :
    segment.write = piece ∧ segment.Sound ∧
      ∀ name, segment = .parameter name → segment ∉ before := by
  rw [parse] at read
  split at read
  · cases read
  · next name some found =>
      split at read
      · cases read
      · next noBrace =>
          rw [Bool.not_eq_true, any_isBrace_eq_false] at noBrace
          split at read
          · cases read
          · next new =>
              cases read
              rw [inner?_eq_some_iff.mp found, write, String.toList_ofList]
              refine ⟨rfl, .parameter ?_ ?_, fun _ _ member => ?_⟩
              · exact fun empty => some (String.ofList_eq_empty_iff.mp empty)
              · rwa [String.toList_ofList]
              · exact new (List.contains_iff_mem.mpr member)
  · split at read
    · cases read
    · next noBrace =>
        rw [Bool.not_eq_true, any_isBrace_eq_false] at noBrace
        cases read
        rw [write, String.toList_ofList]
        exact ⟨rfl, .literal (by rwa [String.toList_ofList]), nofun⟩

/-- A piece is read as the sound segment that is written so, if its name is new. -/
theorem parse_eq_ok_iff : parse template before piece = .ok segment ↔
    segment.write = piece ∧ segment.Sound ∧
      ∀ name, segment = .parameter name → segment ∉ before := by
  refine ⟨sound_of_parse, ?_⟩
  rintro ⟨rfl, sound, new⟩
  cases sound with
  | literal noBrace => rw [write, parse_literal noBrace, String.ofList_toList]
  | @parameter name some noBrace =>
      rw [write, parse_parameter (mt String.toList_eq_nil_iff.mp some) noBrace,
        String.ofList_toList, if_neg (mt List.contains_iff_mem.mp (new name rfl))]

theorem mem_names_iff {name : String} :
    name ∈ segments.filterMap name? ↔ .parameter name ∈ segments := by
  rw [List.mem_filterMap]
  constructor
  · rintro ⟨segment, member, named⟩
    cases segment with
    | literal => cases named
    | parameter => exact Option.some.inj named ▸ member
  · exact fun member => ⟨_, member, rfl⟩

theorem nodup_names_concat : ((segments ++ [segment]).filterMap name?).Nodup ↔
    (segments.filterMap name?).Nodup ∧
      ∀ name, segment = .parameter name → segment ∉ segments := by
  rw [List.filterMap_append]
  cases segment with
  | literal text =>
      rw [List.filterMap_cons_none rfl, List.filterMap_nil, List.append_nil]
      exact ⟨fun once => ⟨once, nofun⟩, And.left⟩
  | parameter name =>
      have named : [parameter name].filterMap name? = [name] := rfl
      rw [named, ← List.concat_eq_append, List.nodup_concat, mem_names_iff, and_comm]
      simp only [parameter.injEq, forall_eq']

end Segment

namespace Template

open Segment (Sound write name?)

variable {text template : String} {t : Template}

/-- Each piece is read as the segment that is written so. The segments are sound, and no name stands
in two of them. -/
theorem parseOnto_eq_ok_iff {before segments : List Segment} {pieces : List (List Char)}
    (once : (before.reverse.filterMap name?).Nodup) :
    parseOnto template before pieces = .ok segments ↔
      ∃ later, segments = before.reverse ++ later ∧ later.map write = pieces ∧
        (∀ segment ∈ later, segment.Sound) ∧ (segments.filterMap name?).Nodup := by
  -- That the names before a piece differ is what its own name is compared for.
  induction pieces generalizing before with
  | nil =>
      rw [parseOnto]
      constructor
      · intro read
        cases read
        exact ⟨[], (List.append_nil _).symm, rfl, List.forall_mem_nil _, once⟩
      · rintro ⟨later, same, written, _, _⟩
        rw [same, List.map_eq_nil_iff.mp written, List.append_nil]
  | cons piece pieces ih =>
      rw [parseOnto]
      constructor
      · intro read
        split at read
        · cases read
        · next segment first =>
            obtain ⟨written, sound, new⟩ := Segment.parse_eq_ok_iff.mp first
            have once : ((segment :: before).reverse.filterMap name?).Nodup := by
              rw [List.reverse_cons, Segment.nodup_names_concat]
              exact ⟨once, fun name same => mt List.mem_reverse.mp (new name same)⟩
            obtain ⟨later, same, pieces, sounds, names⟩ := (ih once).mp read
            refine ⟨segment :: later, ?_, ?_, List.forall_mem_cons.mpr ⟨sound, sounds⟩, names⟩
            · rw [same, List.reverse_cons, List.append_assoc, List.singleton_append]
            · rw [List.map_cons, written, pieces]
      · rintro ⟨later, same, written, sounds, names⟩
        cases later with
        | nil => cases written
        | cons segment later =>
            obtain ⟨first, rest⟩ := List.cons.inj written
            rw [List.forall_mem_cons] at sounds
            rw [List.append_cons, ← List.reverse_cons] at same
            have once : ((segment :: before).reverse.filterMap name?).Nodup := by
              rw [same, List.filterMap_append] at names
              exact names.of_append_left
            have new := (Segment.nodup_names_concat.mp (List.reverse_cons ▸ once)).2
            have read : Segment.parse template before piece = .ok segment :=
              Segment.parse_eq_ok_iff.mpr
                ⟨first, sounds.1, fun name same => mt List.mem_reverse.mpr (new name same)⟩
            rw [read]
            exact (ih once).mpr ⟨later, same, rest, sounds.2, names⟩

theorem readPieces_eq_ok_iff {segments : List Segment} {pieces : List (List Char)} :
    parseOnto template [] pieces = .ok segments ↔ segments.map write = pieces ∧
      (∀ segment ∈ segments, segment.Sound) ∧ (segments.filterMap name?).Nodup := by
  have none : (([] : List Segment).reverse.filterMap name?).Nodup := List.nodup_nil
  rw [parseOnto_eq_ok_iff none]
  simp only [List.reverse_nil, List.nil_append, exists_eq_left']

/-- The text reads as this template. -/
structure Reads (written : String) (t : Template) : Prop where
  text : t.text = written
  some : t.segments ≠ []
  /-- Segments are parted by slashes, and have none inside. -/
  whole : written.toList = '/' :: Text.join '/' (t.segments.map write)
  apart : ∀ segment ∈ t.segments, '/' ∉ segment.write
  sound : ∀ segment ∈ t.segments, segment.Sound
  once : t.parameters.Nodup

/-- A text is read as the only template that it is put together from. -/
theorem parse_eq_ok_iff : parse text = .ok t ↔ Reads text t := by
  constructor
  · intro read
    rw [parse] at read
    split at read
    · next rest whole =>
        cases found : parseOnto text [] (Text.splitOn '/' rest) with
        | error e =>
            rw [found] at read
            cases read
        | ok segments =>
            rw [found] at read
            cases read
            obtain ⟨written, sound, once⟩ := readPieces_eq_ok_iff.mp found
            obtain ⟨rest, some, apart⟩ := Text.splitOn_eq_iff.mp written.symm
            exact ⟨rfl, mt List.map_eq_nil_iff.mpr some, whole.trans (rest ▸ rfl),
              fun _ member => apart _ (List.mem_map_of_mem member), sound, once⟩
    · cases read
  · rintro ⟨rfl, some, whole, apart, sound, once⟩
    have pieces : Text.splitOn '/' (Text.join '/' (t.segments.map write)) = t.segments.map write :=
      Text.splitOn_join (mt List.map_eq_nil_iff.mp some) (List.forall_mem_map.mpr apart)
    have found : parseOnto t.text [] (t.segments.map write) = .ok t.segments :=
      readPieces_eq_ok_iff.mpr ⟨rfl, sound, once⟩
    rw [parse, whole]
    simp only [pieces, found]
    rfl

end Template

end HttpExchange
