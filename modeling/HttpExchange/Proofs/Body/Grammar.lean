import HttpExchange.Body.Decoder
import HttpExchange.Proofs.Wire.Line

/-!
Bodies in chunks as a language. A body is a number of parts, each with a line that names a size, as
many bytes, and an empty line; then a line that names the size zero, any lines that are not empty,
and an empty line. Every run of bytes begins with a body, or ends inside one, or breaks off where no
body can go on.
-/

namespace HttpExchange

def Decoder.AtLine (state : DecoderState) : Prop :=
  state = .size ∨ state = .dataEnd ∨ state = .trailers

namespace Chunk

open Decoder (AtLine)

structure IsLine (text line : Bytes) : Prop where
  ended : Bytes.Line text line
  short : line.length ≤ Decoder.maxLine

def IsSize (size : Nat) (line : Bytes) : Prop :=
  ∃ text, IsLine text line ∧ parseSize text = .ok size

/-- A line behind the last chunk, in front of the empty one. -/
def IsTrailer (line : Bytes) : Prop := ∃ text, IsLine text line ∧ text ≠ []

structure Part where
  size : Bytes
  data : Bytes
  ending : Bytes
  some : data ≠ []
  sized : IsSize data.length size
  blank : IsLine [] ending

def Part.wire (p : Part) : Bytes := p.size ++ (p.data ++ p.ending)

def wireOf (parts : List Part) : Bytes := parts.flatMap Part.wire

def dataOf (parts : List Part) : List Bytes := parts.map Part.data

structure Coding where
  parts : List Part
  last : Bytes
  trailers : List Bytes
  ending : Bytes
  sized : IsSize 0 last
  each : ∀ line ∈ trailers, IsTrailer line
  blank : IsLine [] ending

namespace Coding

def wire (c : Coding) : Bytes :=
  wireOf c.parts ++ (c.last ++ (c.trailers.flatten ++ c.ending))

def chunks (c : Coding) : List Bytes := dataOf c.parts

end Coding

/-- These bytes are a body in chunks, which carries this content. -/
def Codes (x content : Bytes) : Prop := ∃ c : Coding, c.wire = x ∧ c.chunks.flatten = content

/-- What can stand in front of a place in a body in chunks, with the content that it carries. -/
inductive Opening : DecoderState → (front content : Bytes) → Prop where
  | size (parts : List Part) : Opening .size (wireOf parts) (dataOf parts).flatten
  | data (parts : List Part) {line got : Bytes} {more : Nat}
      (sized : IsSize (got.length + (more + 1)) line) :
      Opening (.data more) (wireOf parts ++ (line ++ got)) ((dataOf parts).flatten ++ got)
  | dataEnd (parts : List Part) {line data : Bytes} (some : data ≠ [])
      (sized : IsSize data.length line) :
      Opening .dataEnd (wireOf parts ++ (line ++ data)) ((dataOf parts).flatten ++ data)
  | trailers (parts : List Part) {last : Bytes} {trailers : List Bytes} (sized : IsSize 0 last)
      (each : ∀ line ∈ trailers, IsTrailer line) :
      Opening .trailers (wireOf parts ++ (last ++ trailers.flatten)) (dataOf parts).flatten

/-- Whether a line with this text may stand in a place. -/
def Accepts : DecoderState → (text : Bytes) → Prop
  | .size, text => ∃ size, parseSize text = .ok size
  | .dataEnd, text => text = []
  | _, _ => True

/-- The bytes end inside the data of a chunk, or inside a line that is not too long yet. -/
def EndsInside (x : Bytes) : Prop :=
  (∃ more content, Opening (.data more) x content) ∨
    ∃ state front content begun, AtLine state ∧ Opening state front content ∧
      x = front ++ begun ∧ Bytes.lf ∉ begun ∧ begun.length < Decoder.maxLine

/-- The bytes have a line that may not stand in its place, or one that is too long. -/
def Breaks (x : Bytes) : Prop :=
  ∃ state front content rest, AtLine state ∧ Opening state front content ∧
    ((∃ text line, x = front ++ (line ++ rest) ∧ IsLine text line ∧ ¬ Accepts state text) ∨
      ∃ run, x = front ++ (run ++ rest) ∧ Bytes.lf ∉ run ∧ run.length = Decoder.maxLine)

variable {state : DecoderState} {front content : Bytes} {parts : List Part}

@[simp] theorem wireOf_nil : wireOf [] = [] := rfl

@[simp] theorem wireOf_cons (p : Part) (parts : List Part) :
    wireOf (p :: parts) = p.wire ++ wireOf parts := List.flatMap_cons

@[simp] theorem dataOf_cons (p : Part) (parts : List Part) :
    dataOf (p :: parts) = p.data :: dataOf parts := rfl

theorem wireOf_append (first second : List Part) :
    wireOf (first ++ second) = wireOf first ++ wireOf second := List.flatMap_append

theorem wireOf_concat (parts : List Part) (p : Part) :
    wireOf (parts ++ [p]) = wireOf parts ++ p.wire := by
  rw [wireOf_append, wireOf, wireOf, List.flatMap_singleton]

/-- Behind every place where a line stands there is one that may stand there, or the bytes end
inside it, or they break there. -/
theorem Opening.line_or (opening : Opening state front content) (atLine : AtLine state)
    (x : Bytes) :
    (∃ text line rest, x = line ++ rest ∧ IsLine text line ∧ Accepts state text) ∨
      EndsInside (front ++ x) ∨ Breaks (front ++ x) := by
  rcases Bytes.line_or Decoder.maxLine x with
    ⟨text, line, rest, rfl, isLine, short⟩ | ⟨noLf, short⟩ | ⟨run, rest, rfl, noLf, long⟩
  · by_cases accepted : Accepts state text
    · exact .inl ⟨text, line, rest, rfl, ⟨isLine, short⟩, accepted⟩
    · exact .inr (.inr ⟨state, front, content, rest, atLine, opening,
        .inl ⟨text, line, rfl, ⟨isLine, short⟩, accepted⟩⟩)
  · exact .inr (.inl (.inr ⟨state, front, content, x, atLine, opening, rfl, noLf, short⟩))
  · exact .inr (.inr ⟨state, front, content, rest, atLine, opening, .inr ⟨run, rfl, noLf, long⟩⟩)

namespace Opening

variable {x line b : Bytes} {more : Nat}

theorem lastSize (opening : Opening .size x content) (sized : IsSize 0 line) :
    Opening .trailers (x ++ line) content := by
  cases opening with
  | size parts =>
      have opening := Opening.trailers parts sized (List.forall_mem_nil IsTrailer)
      rwa [List.flatten_nil, List.append_nil] at opening

theorem nextSize (opening : Opening .size x content) (sized : IsSize (more + 1) line) :
    Opening (.data more) (x ++ line) content := by
  cases opening with
  | size parts =>
      have sized' : IsSize (([] : Bytes).length + (more + 1)) line := by
        rwa [List.length_nil, Nat.zero_add]
      have opening := Opening.data parts sized'
      rwa [List.append_nil, List.append_nil] at opening

theorem bytes (opening : Opening (.data more) x content) (some : b ≠ [])
    (fits : b.length ≤ more + 1) :
    Opening (if more < b.length then .dataEnd else .data (more - b.length)) (x ++ b)
      (content ++ b) := by
  cases opening with
  | @data parts line got more sized =>
      have sum : (got ++ b).length = got.length + b.length := List.length_append
      rw [List.append_assoc, List.append_assoc, List.append_assoc]
      by_cases last : more < b.length
      · rw [if_pos last]
        have size : got.length + (more + 1) = (got ++ b).length := by omega
        rw [size] at sized
        exact .dataEnd parts (List.append_ne_nil_of_right_ne_nil got some) sized
      · rw [if_neg last]
        have size : got.length + (more + 1) = (got ++ b).length + (more - b.length + 1) := by
          omega
        rw [size] at sized
        exact .data parts sized

theorem lineEnd (opening : Opening .dataEnd x content) (blank : IsLine [] line) :
    Opening .size (x ++ line) content := by
  cases opening with
  | @dataEnd parts size data some sized =>
      have opening := Opening.size (parts ++ [⟨size, data, line, some, sized, blank⟩])
      rw [wireOf_concat, Part.wire, dataOf, List.map_append, List.flatten_append] at opening
      simpa only [dataOf, List.map_cons, List.map_nil, List.flatten_singleton,
        List.append_assoc] using opening

theorem trailer (opening : Opening .trailers x content) (more : IsTrailer line) :
    Opening .trailers (x ++ line) content := by
  cases opening with
  | @trailers parts last trailers sized each =>
      have each' : ∀ t ∈ trailers ++ [line], IsTrailer t :=
        List.forall_mem_append.mpr ⟨each, List.forall_mem_singleton.mpr more⟩
      have opening := Opening.trailers parts sized each'
      rw [List.flatten_append, List.flatten_singleton] at opening
      rwa [List.append_assoc, List.append_assoc]

theorem ending (opening : Opening .trailers x content) (blank : IsLine [] line) :
    ∃ coding : Coding, x ++ line = coding.wire ∧ content = coding.chunks.flatten := by
  cases opening with
  | @trailers parts last trailers sized each =>
      refine ⟨⟨parts, last, trailers, line, sized, each, blank⟩, ?_, rfl⟩
      rw [Coding.wire, List.append_assoc, List.append_assoc]

end Opening

def Whole (x : Bytes) : Prop := ∃ (c : Coding) (rest : Bytes), x = c.wire ++ rest

theorem whole_or_behind_last (parts : List Part) {last : Bytes} {trailers : List Bytes}
    (sized : IsSize 0 last) (each : ∀ line ∈ trailers, IsTrailer line) (x : Bytes) :
    let all := wireOf parts ++ (last ++ trailers.flatten) ++ x
    Whole all ∨ EndsInside all ∨ Breaks all := by
  -- each line that is not the last leaves less behind it
  induction size : x.length using Nat.strongRecOn generalizing x trailers with
  | ind n ih =>
      intro all
      rcases (Opening.trailers parts sized each).line_or (.inr (.inr rfl)) x with
        ⟨text, line, rest, rfl, isLine, _⟩ | short
      · by_cases blank : text = []
        · subst blank
          refine .inl ⟨⟨parts, last, trailers, line, sized, each, isLine⟩, rest, ?_⟩
          simp only [all, Coding.wire, List.append_assoc]
        · have each' : ∀ t ∈ trailers ++ [line], IsTrailer t :=
            List.forall_mem_append.mpr ⟨each, List.forall_mem_singleton.mpr ⟨text, isLine, blank⟩⟩
          have shorter : rest.length < n := by
            have := List.length_pos_iff.mpr isLine.ended.ne_nil
            rw [← size, List.length_append]
            omega
          have later := ih rest.length shorter each' rest rfl
          simp only [List.flatten_append, List.flatten_singleton, List.append_assoc] at later
          simpa only [all, List.append_assoc] using later
      · exact .inr short

theorem part_or (parts : List Part) {line : Bytes} {more : Nat} (sized : IsSize (more + 1) line)
    (x : Bytes) :
    let all := wireOf parts ++ (line ++ x)
    (∃ p rest, all = wireOf (parts ++ [p]) ++ rest ∧ rest.length < x.length) ∨
      EndsInside all ∨ Breaks all := by
  intro all
  by_cases short : x.length < more + 1
  · have size : x.length + (more - x.length + 1) = more + 1 := by omega
    exact .inr (.inl (.inl ⟨more - x.length, _, .data parts (size ▸ sized)⟩))
  · obtain ⟨data, y, rfl, length⟩ : ∃ data y, x = data ++ y ∧ data.length = more + 1 :=
      ⟨x.take (more + 1), x.drop (more + 1), (List.take_append_drop _ _).symm, by
        rw [List.length_take]
        omega⟩
    have some : data ≠ [] := List.ne_nil_of_length_eq_add_one length
    rw [← length] at sized
    rcases (Opening.dataEnd parts some sized).line_or (.inr (.inl rfl)) y with
      ⟨text, ending, rest, rfl, isLine, blank⟩ | short
    · cases blank
      refine .inl ⟨⟨line, data, ending, some, sized, isLine⟩, rest, ?_, ?_⟩
      · simp only [all, wireOf_concat, Part.wire, List.append_assoc]
      · simp only [List.length_append]
        omega
    · simp only [List.append_assoc] at short
      exact .inr short

theorem whole_or_behind (parts : List Part) (x : Bytes) :
    let all := wireOf parts ++ x
    Whole all ∨ EndsInside all ∨ Breaks all := by
  -- each whole chunk goes to the parts in front and leaves less behind it
  induction length : x.length using Nat.strongRecOn generalizing x parts with
  | ind n ih =>
      intro all
      rcases (Opening.size parts).line_or (.inl rfl) x with
        ⟨text, line, rest, rfl, isLine, size, parsed⟩ | short
      · have sized : IsSize size line := ⟨text, isLine, parsed⟩
        cases size with
        | zero =>
            have none : ∀ line ∈ ([] : List Bytes), IsTrailer line := List.forall_mem_nil _
            have later := whole_or_behind_last parts sized none rest
            simpa only [all, List.flatten_nil, List.append_nil, List.append_assoc] using later
        | succ more =>
            rcases part_or parts sized rest with ⟨p, rest', same, shorter⟩ | short
            · have fewer : rest'.length < n := by
                rw [← length, List.length_append]
                omega
              rw [show all = _ from same]
              exact ih rest'.length fewer (parts ++ [p]) rest' rfl
            · exact .inr short
      · exact .inr short

/-- Every run of bytes begins with a body, or ends inside one, or breaks. -/
theorem whole_or (x : Bytes) : Whole x ∨ EndsInside x ∨ Breaks x := whole_or_behind [] x

end Chunk

/-- The bytes are a whole body under a framing that has an end of its own, with these chunks. -/
inductive Framing.Spans : Framing → (x : Bytes) → (chunks : List Bytes) → Prop where
  | empty : Spans .empty [] []
  | length (b : Bytes) : Spans (.length b.length) b [b]
  | chunked (coding : Chunk.Coding) : Spans .chunked coding.wire coding.chunks

end HttpExchange
