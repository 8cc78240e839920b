import HttpExchange.Proofs.Body.Chunk
import HttpExchange.Proofs.Body.Decoding

/-!
Bodies in chunks, read by a decoder. A decoder reads exactly the bodies of the language: it ends in
order behind one, and where the bytes end inside a body or break, it says which of the two it was.
What is written for chunks is such a body.
-/

namespace HttpExchange

theorem Bytes.prefix_append_cases {g a b : Bytes} (part : g <+: a ++ b) :
    (g <+: a ∧ g.length < a.length) ∨ ∃ t, g = a ++ t ∧ t <+: b := by
  by_cases inside : g.length < a.length
  · exact .inl ⟨List.prefix_of_prefix_length_le part (List.prefix_append a b)
      (Nat.le_of_lt inside), inside⟩
  · obtain ⟨t, rfl⟩ := List.prefix_of_prefix_length_le (List.prefix_append a b) part
      (Nat.le_of_not_lt inside)
    exact .inr ⟨t, rfl, (List.prefix_append_right_inj a).mp part⟩

theorem Bytes.append_shorter {a b c : Bytes} :
    (a ++ b).length < (a ++ c).length ↔ b.length < c.length := by
  rw [List.length_append, List.length_append, Nat.add_lt_add_iff_left]

theorem Bytes.length_of_drop {a rest : Bytes} {k : Nat} (within : k ≤ (a ++ rest).length)
    (same : rest = (a ++ rest).drop k) : a.length = k := by
  have length := congrArg List.length same
  rw [List.length_drop, List.length_append] at length
  rw [List.length_append] at within
  omega

namespace Chunk

theorem isLine_crlf : IsLine [] Bytes.crlf := ⟨.crlf List.not_mem_nil, by decide⟩

theorem isSize_sizeLine {size : Nat} (small : size < Numeral.bound64) :
    IsSize size (sizeLine size) := by
  refine ⟨sizeText size, ⟨.crlf (lf_notMem_sizeText size), ?_⟩, parseSize_sizeText small⟩
  have short := length_sizeText small
  have two : Bytes.crlf.length = 2 := rfl
  rw [sizeLine_eq, List.length_append, two]
  exact Nat.le_trans (Nat.add_le_add_right short 2) (by decide)

theorem exists_parts {chunks : List Bytes} (some : ∀ b ∈ chunks, b ≠ [])
    (small : ∀ b ∈ chunks, b.length < Numeral.bound64) :
    ∃ parts : List Part, wireOf parts = chunks.flatMap frame ∧ dataOf parts = chunks := by
  induction chunks with
  | nil => exact ⟨[], rfl, rfl⟩
  | cons b chunks ih =>
      obtain ⟨first, some⟩ := List.forall_mem_cons.mp some
      obtain ⟨size, small⟩ := List.forall_mem_cons.mp small
      obtain ⟨parts, wire, data⟩ := ih some small
      refine ⟨⟨sizeLine b.length, b, Bytes.crlf, first, isSize_sizeLine size, isLine_crlf⟩ ::
        parts, ?_, ?_⟩
      · simp only [wireOf_cons, wire, List.flatMap_cons, Part.wire, frame, List.append_assoc]
      · rw [dataOf_cons, data]

/-- What is written for chunks is a body that has these chunks. -/
theorem exists_coding {chunks : List Bytes} (some : ∀ b ∈ chunks, b ≠ [])
    (small : ∀ b ∈ chunks, b.length < Numeral.bound64) :
    ∃ coding : Coding, coding.wire = chunks.flatMap frame ++ terminator ∧
      coding.chunks = chunks := by
  obtain ⟨parts, wire, data⟩ := exists_parts some small
  refine ⟨⟨parts, sizeLine 0, [], Bytes.crlf, isSize_sizeLine (by decide), by simp, isLine_crlf⟩,
    ?_, data⟩
  rw [Coding.wire, wire, List.flatten_nil, List.nil_append, terminator]

end Chunk

namespace Decoder

open Chunk (IsLine IsSize IsTrailer Part Coding Opening Codes EndsInside Breaks isLine_crlf wireOf
  dataOf)

variable {d : Decoder} {r : Reader} {c : Clock} {x y : Bytes} {tail : List Arrival}

theorem drain_size {size line : Bytes} (some : size ≠ []) (sized : IsSize size.length line)
    (holds : r.Holds (line ++ y) tail) :
    ∃ r', ({ d with state := .size } : Decoder).drain r c =
        ({ d with state := inChunk size.length } : Decoder).drain r' c ∧ r'.Holds y tail := by
  obtain ⟨text, isLine, parsed⟩ := sized
  obtain ⟨r', read, holds'⟩ := readLine_line isLine holds c
  obtain ⟨more, length⟩ : ∃ n, size.length = n + 1 :=
    ⟨size.length - 1, by have := List.length_pos_iff.mpr some; omega⟩
  refine ⟨r', drain_of_advance_eq ?_, holds'⟩
  rw [length] at parsed ⊢
  exact advance_size read parsed

theorem drain_data {line data : Bytes} (some : data ≠ []) (sized : IsSize data.length line)
    (holds : r.Holds (line ++ (data ++ y)) tail) :
    ∃ r', ({ d with state := .size } : Decoder).drain r c =
        (({ d with state := .dataEnd } : Decoder).drain r' c).behind (Bytes.cut d.bound data) ∧
      r'.Holds y tail := by
  obtain ⟨r₁, begun, holds₁⟩ := drain_size (d := d) (c := c) some sized holds
  obtain ⟨r', counted, holds'⟩ := drain_counted (d := d) (c := c) inChunk_countsDown holds₁
  exact ⟨r', begun.trans counted, holds'⟩

theorem drain_part (p : Part) (holds : r.Holds (p.wire ++ y) tail) :
    ∃ r', ({ d with state := .size } : Decoder).drain r c =
        (({ d with state := .size } : Decoder).drain r' c).behind (Bytes.cut d.bound p.data) ∧
      r'.Holds y tail := by
  rw [Part.wire, List.append_assoc, List.append_assoc] at holds
  obtain ⟨r₁, data, holds₁⟩ := drain_data (d := d) (c := c) p.some p.sized holds
  obtain ⟨r', read, holds'⟩ := readLine_line p.blank holds₁ c
  refine ⟨r', ?_, holds'⟩
  rw [data, drain_of_advance_eq (advance_dataEnd read)]

theorem drain_parts (parts : List Part) (holds : r.Holds (wireOf parts ++ y) tail) :
    ∃ r', ({ d with state := .size } : Decoder).drain r c =
        (({ d with state := .size } : Decoder).drain r' c).behind
          ((dataOf parts).flatMap (Bytes.cut d.bound)) ∧ r'.Holds y tail := by
  induction parts generalizing r with
  | nil => exact ⟨r, rfl, holds⟩
  | cons p parts ih =>
      rw [Chunk.wireOf_cons, List.append_assoc] at holds
      obtain ⟨r₁, first, holds₁⟩ := drain_part (d := d) (c := c) p holds
      obtain ⟨r', rest, holds'⟩ := ih holds₁
      refine ⟨r', ?_, holds'⟩
      rw [first, rest, Decoded.behind_behind, Chunk.dataOf_cons, List.flatMap_cons]

theorem drain_trailers {trailers : List Bytes} (each : ∀ line ∈ trailers, IsTrailer line)
    (holds : r.Holds (trailers.flatten ++ y) tail) :
    ∃ r', ({ d with state := .trailers } : Decoder).drain r c =
        ({ d with state := .trailers } : Decoder).drain r' c ∧ r'.Holds y tail := by
  induction trailers generalizing r with
  | nil => exact ⟨r, rfl, holds⟩
  | cons line trailers ih =>
      obtain ⟨⟨text, isLine, some⟩, later⟩ := List.forall_mem_cons.mp each
      rw [List.flatten_cons, List.append_assoc] at holds
      obtain ⟨r₁, read, holds₁⟩ := readLine_line isLine holds c
      obtain ⟨r', rest, holds'⟩ := ih later holds₁
      exact ⟨r', (drain_of_advance_eq (advance_trailer some read)).trans rest, holds'⟩

theorem drain_last {last : Bytes} (sized : IsSize 0 last) (holds : r.Holds (last ++ y) tail) :
    ∃ r', ({ d with state := .size } : Decoder).drain r c =
        ({ d with state := .trailers } : Decoder).drain r' c ∧ r'.Holds y tail := by
  obtain ⟨text, isLine, parsed⟩ := sized
  obtain ⟨r', read, holds'⟩ := readLine_line isLine holds c
  exact ⟨r', drain_of_advance_eq (advance_lastSize read parsed), holds'⟩

/-- A body is read to its end, and what stands behind it stays unread. -/
theorem drain_coding (coding : Coding) (holds : r.Holds (coding.wire ++ y) tail) :
    ∃ r', ({ d with state := .size } : Decoder).drain r c =
        ⟨coding.chunks.flatMap (Bytes.cut d.bound), .ok (),
          { d with state := .done, released := true }, r', c⟩ ∧ r'.Holds y tail := by
  simp only [Coding.wire, List.append_assoc] at holds
  obtain ⟨r₁, parts, holds₁⟩ := drain_parts (d := d) (c := c) coding.parts holds
  obtain ⟨r₂, last, holds₂⟩ := drain_last (d := d) (c := c) coding.sized holds₁
  obtain ⟨r₃, trailers, holds₃⟩ := drain_trailers (d := d) (c := c) coding.each holds₂
  obtain ⟨r', read, holds'⟩ := readLine_line coding.blank holds₃ c
  refine ⟨r', ?_, holds'⟩
  rw [parts, last, trailers, drain_of_advance_ended (advance_trailers read), beq_self_eq_true,
    Bool.or_true, Decoded.behind, List.append_nil]
  rfl

/-- A line that is cut is the end of the body, and an error. -/
theorem drain_cut_line {state : DecoderState} {text line : Bytes} (atLine : AtLine state)
    (isLine : IsLine text line) (part : x <+: line) (shorter : x.length < line.length)
    (holds : r.Holds x tail) (severed : Arrival.Severed tail) :
    (({ d with state } : Decoder).drain r c).Fails d .incomplete [] :=
  drain_line_severed atLine (isLine.ended.lf_notMem_of_prefix part shorter)
    (Nat.lt_of_lt_of_le shorter isLine.short) holds severed

theorem drain_cut_part (p : Part) (part : x <+: p.wire) (shorter : x.length < p.wire.length)
    (holds : r.Holds x tail) (severed : Arrival.Severed tail) :
    (({ d with state := .size } : Decoder).drain r c).Fails d .incomplete
      (Bytes.cut d.bound p.data) := by
  rw [Part.wire] at part shorter
  rcases Bytes.prefix_append_cases part with ⟨inSize, short⟩ | ⟨t, rfl, rest⟩
  · obtain ⟨text, isLine, _⟩ := p.sized
    exact (drain_cut_line (.inl rfl) isLine inSize short holds severed).mono List.nil_prefix
  · rw [Bytes.append_shorter] at shorter
    rcases Bytes.prefix_append_cases rest with ⟨inData, short⟩ | ⟨u, rfl, ending⟩
    · obtain ⟨r₁, begun, holds₁⟩ := drain_size (d := d) (c := c) p.some p.sized holds
      rw [begun]
      exact drain_counted_severed inChunk_countsDown inData short holds₁ severed
    · rw [Bytes.append_shorter] at shorter
      obtain ⟨r₁, data, holds₁⟩ := drain_data (d := d) (c := c) p.some p.sized holds
      have short := (drain_cut_line (d := d) (c := c) (.inr (.inl rfl)) p.blank ending shorter
        holds₁ severed).behind (Bytes.cut d.bound p.data)
      rwa [List.append_nil, ← data] at short

theorem drain_cut_trailers {trailers : List Bytes} {ending : Bytes}
    (each : ∀ line ∈ trailers, IsTrailer line) (blank : IsLine [] ending)
    (part : x <+: trailers.flatten ++ ending)
    (shorter : x.length < (trailers.flatten ++ ending).length) (holds : r.Holds x tail)
    (severed : Arrival.Severed tail) :
    (({ d with state := .trailers } : Decoder).drain r c).Fails d .incomplete [] := by
  induction trailers generalizing x r with
  | nil => exact drain_cut_line (.inr (.inr rfl)) blank part shorter holds severed
  | cons line trailers ih =>
      obtain ⟨⟨text, isLine, some⟩, later⟩ := List.forall_mem_cons.mp each
      rw [List.flatten_cons, List.append_assoc] at part shorter
      rcases Bytes.prefix_append_cases part with ⟨inLine, short⟩ | ⟨t, rfl, rest⟩
      · exact drain_cut_line (.inr (.inr rfl)) isLine inLine short holds severed
      · rw [Bytes.append_shorter] at shorter
        obtain ⟨r₁, read, holds₁⟩ := readLine_line isLine holds c
        rw [drain_of_advance_eq (advance_trailer some read)]
        exact ih later rest shorter holds₁

/-- No proper beginning of a body is read as a body that is whole. What is handed out of it are the
first pieces of the body. -/
theorem drain_cut_coding (coding : Coding) (part : x <+: coding.wire)
    (shorter : x.length < coding.wire.length) (holds : r.Holds x tail)
    (severed : Arrival.Severed tail) :
    (({ d with state := .size } : Decoder).drain r c).Fails d .incomplete
      (coding.chunks.flatMap (Bytes.cut d.bound)) := by
  obtain ⟨parts, last, trailers, ending, sized, each, blank⟩ := coding
  simp only [Coding.wire, Coding.chunks] at part shorter ⊢
  -- the cut falls into the first part, or that one is whole and the cut is behind it
  induction parts generalizing x r with
  | nil =>
      rw [Chunk.wireOf_nil, List.nil_append] at part shorter
      rcases Bytes.prefix_append_cases part with ⟨inLast, short⟩ | ⟨t, rfl, rest⟩
      · obtain ⟨text, isLine, _⟩ := sized
        exact drain_cut_line (.inl rfl) isLine inLast short holds severed
      · obtain ⟨r₁, read, holds₁⟩ := drain_last (d := d) (c := c) sized holds
        rw [read]
        exact drain_cut_trailers each blank rest (Bytes.append_shorter.mp shorter) holds₁ severed
  | cons p parts ih =>
      rw [Chunk.wireOf_cons, List.append_assoc] at part shorter
      rw [Chunk.dataOf_cons, List.flatMap_cons]
      rcases Bytes.prefix_append_cases part with ⟨inPart, short⟩ | ⟨t, rfl, rest⟩
      · exact (drain_cut_part p inPart short holds severed).mono (List.prefix_append _ _)
      · rw [Bytes.append_shorter] at shorter
        obtain ⟨r₁, first, holds₁⟩ := drain_part (d := d) (c := c) p holds
        rw [first]
        exact (ih holds₁ rest shorter).behind _

theorem drain_opening {state : DecoderState} {front content : Bytes}
    (opening : Opening state front content) (atLine : AtLine state)
    (holds : r.Holds (front ++ y) tail) :
    ∃ r' pieces, ({ d with state := .size } : Decoder).drain r c =
        (({ d with state } : Decoder).drain r' c).behind pieces ∧ r'.Holds y tail := by
  cases opening with
  | size parts =>
      obtain ⟨r', read, holds'⟩ := drain_parts (d := d) (c := c) parts holds
      exact ⟨r', _, read, holds'⟩
  | data => rcases atLine with other | other | other <;> cases other
  | dataEnd parts some sized =>
      rw [List.append_assoc, List.append_assoc] at holds
      obtain ⟨r₁, before, holds₁⟩ := drain_parts (d := d) (c := c) parts holds
      obtain ⟨r', data, holds'⟩ := drain_data (d := d) (c := c) some sized holds₁
      exact ⟨r', _, by rw [before, data, Decoded.behind_behind], holds'⟩
  | trailers parts sized each =>
      rw [List.append_assoc, List.append_assoc] at holds
      obtain ⟨r₁, before, holds₁⟩ := drain_parts (d := d) (c := c) parts holds
      obtain ⟨r₂, last, holds₂⟩ := drain_last (d := d) (c := c) sized holds₁
      obtain ⟨r', trailers, holds'⟩ := drain_trailers (d := d) (c := c) each holds₂
      exact ⟨r', _, by rw [before, last, trailers], holds'⟩

theorem drain_endsInside (inside : Chunk.EndsInside x) (holds : r.Holds x tail)
    (severed : Arrival.Severed tail) :
    ∃ pieces, (({ d with state := .size } : Decoder).drain r c).Fails d .incomplete pieces := by
  rcases inside with ⟨more, content, opening⟩ |
    ⟨state, front, content, begun, atLine, opening, rfl, noLf, short⟩
  · cases opening with
    | @data parts line got more sized =>
        -- any data of the announced size goes on from what has come of it
        let data := got ++ List.replicate (more + 1) 0
        have size : data.length = got.length + (more + 1) := by
          rw [List.length_append, List.length_replicate]
        have some : data ≠ [] := List.append_ne_nil_of_right_ne_nil _ (List.cons_ne_nil _ _)
        have shorter : got.length < data.length := by omega
        rw [← size] at sized
        obtain ⟨r₁, before, holds₁⟩ := drain_parts (d := d) (c := c) parts holds
        obtain ⟨r₂, begun, holds₂⟩ := drain_size (d := d) (c := c) some sized holds₁
        rw [before, begun]
        exact ⟨_, (drain_counted_severed inChunk_countsDown (List.prefix_append _ _) shorter
          holds₂ severed).behind _⟩
  · obtain ⟨r', pieces, before, holds'⟩ := drain_opening (d := d) (c := c) opening atLine holds
    rw [before]
    exact ⟨_, (drain_line_severed atLine noLf short holds' severed).behind _⟩

theorem drain_breaks (breaks : Chunk.Breaks x) (holds : r.Holds x tail) :
    ∃ fault pieces,
      (({ d with state := .size } : Decoder).drain r c).Fails d (.chunk fault) pieces := by
  obtain ⟨state, front, content, rest, atLine, opening,
    ⟨text, line, rfl, isLine, refused⟩ | ⟨run, rfl, noLf, long⟩⟩ := breaks
  · obtain ⟨r₁, pieces, before, holds₁⟩ := drain_opening (d := d) (c := c) opening atLine holds
    obtain ⟨r', read, _⟩ := readLine_line isLine holds₁ c
    obtain ⟨fault, step⟩ := advance_refused (max 1 d.bound) atLine read refused
    rw [before, drain_of_advance_error step]
    exact ⟨fault, _, Decoded.Fails.behind ⟨rfl, rfl, List.prefix_refl []⟩ _⟩
  · obtain ⟨r₁, pieces, before, holds₁⟩ := drain_opening (d := d) (c := c) opening atLine holds
    obtain ⟨r', read⟩ := readLine_tooLong noLf long holds₁ c
    rw [before]
    exact ⟨_, _, (drain_line_error atLine read).behind _⟩

/-- Bytes that are a body give its content, and what stands behind them stays unread. -/
theorem drain_codes {k : Nat} {content : Bytes} (codes : Chunk.Codes (x.take k) content)
    (holds : r.Holds x tail) (bound : Nat) (c : Clock) :
    let body := (start .chunked bound).drain r c
    body.ending = .ok () ∧ body.pieces.flatten = content ∧ body.reader.Holds (x.drop k) tail := by
  intro body
  obtain ⟨coding, wire, rfl⟩ := codes
  rw [← List.take_append_drop k x, ← wire] at holds
  obtain ⟨r', read, holds'⟩ := drain_coding (d := start .chunked bound) (c := c) coding holds
  have same : body = _ := read
  rw [same]
  exact ⟨rfl, Bytes.flatten_flatMap_cut bound coding.chunks, holds'⟩

/-- What a decoder makes of any bytes: a body and what stands behind it, or one of two errors. -/
theorem drain_verdict (bound : Nat) (holds : r.Holds x tail) (severed : Arrival.Severed tail)
    (c : Clock) :
    let d := start .chunked bound
    let body := d.drain r c
    (∃ (coding : Coding) (rest : Bytes), x = coding.wire ++ rest ∧ body.ending = .ok () ∧
        body.reader.Holds rest tail) ∨
      (Chunk.EndsInside x ∧ ∃ pieces, body.Fails d .incomplete pieces) ∨
      (Chunk.Breaks x ∧ ∃ fault pieces, body.Fails d (.chunk fault) pieces) := by
  intro d body
  rcases Chunk.whole_or x with ⟨coding, rest, rfl⟩ | inside | breaks
  · obtain ⟨r', read, holds'⟩ := drain_coding (d := d) (c := c) coding holds
    have same : body = _ := read
    exact .inl ⟨coding, rest, rfl, by rw [same], by rwa [same]⟩
  · exact .inr (.inl ⟨inside, drain_endsInside (d := d) (c := c) inside holds severed⟩)
  · exact .inr (.inr ⟨breaks, drain_breaks (d := d) (c := c) breaks holds⟩)

/-- Where a decoder ends in order, it has read a body. -/
theorem codes_of_drain {k : Nat} {bound : Nat} (holds : r.Holds x tail)
    (severed : Arrival.Severed tail) (within : k ≤ x.length)
    (ended : ((start .chunked bound).drain r c).ending = .ok ())
    (behind : ((start .chunked bound).drain r c).reader.Holds (x.drop k) tail) :
    Chunk.Codes (x.take k) ((start .chunked bound).drain r c).pieces.flatten := by
  rcases drain_verdict bound holds severed c with ⟨coding, rest, rfl, _, holds'⟩ |
    ⟨_, _, fails⟩ | ⟨_, _, _, fails⟩
  · have length : coding.wire.length = k := Bytes.length_of_drop within (holds'.unique behind)
    have codes : Chunk.Codes ((coding.wire ++ rest).take k) coding.chunks.flatten :=
      ⟨coding, (List.take_left' length).symm, rfl⟩
    rw [(drain_codes codes holds bound c).2.1]
    exact codes
  · cases ended.symm.trans fails.ending
  · cases ended.symm.trans fails.ending

theorem next_fails {body : Decoded} {e : WireError} {pieces : List Bytes}
    (fails : body.Fails d e pieces) (r : Reader) (c : Clock) :
    body.decoder.next r c = (.ok .ended, body.decoder, r, c) := by
  rw [fails.decoder]
  exact next_failed rfl r c

/-- A decoder reads exactly the bodies of the language. It ends in order behind a body, with the
content of that body; where the bytes end inside a body, the one error says that they were cut
short; where they break, it names the fault. There is nothing else that bytes can be. -/
theorem drain_chunked (bound : Nat) (holds : r.Holds x tail) (severed : Arrival.Severed tail)
    (c : Clock) :
    let body := (start .chunked bound).drain r c
    (∀ k ≤ x.length, ∀ content, (body.ending = .ok () ∧ body.pieces.flatten = content ∧
        body.reader.Holds (x.drop k) tail) ↔ Chunk.Codes (x.take k) content) ∧
      (body.ending = .error .incomplete ↔ Chunk.EndsInside x) ∧
      ((∃ fault, body.ending = .error (.chunk fault)) ↔ Chunk.Breaks x) ∧
      ((body.ending = .ok () ∧ ∃ k ≤ x.length, body.reader.Holds (x.drop k) tail) ∨
        (body.ending = .error .incomplete ∨ ∃ fault, body.ending = .error (.chunk fault)) ∧
          ∀ r c, body.decoder.next r c = (.ok .ended, body.decoder, r, c)) := by
  intro body
  have verdict := drain_verdict bound holds severed c
  refine ⟨fun k within content => ⟨?_, fun codes => drain_codes codes holds bound c⟩, ⟨?_, ?_⟩,
    ⟨?_, ?_⟩, ?_⟩
  · rintro ⟨ended, rfl, behind⟩
    exact codes_of_drain holds severed within ended behind
  · intro short
    rcases verdict with ⟨_, _, _, ended, _⟩ | ⟨inside, _⟩ | ⟨_, _, _, fails⟩
    · cases short.symm.trans ended
    · exact inside
    · cases short.symm.trans fails.ending
  · intro inside
    obtain ⟨_, fails⟩ := drain_endsInside (d := start .chunked bound) (c := c) inside holds severed
    exact fails.ending
  · rintro ⟨fault, broken⟩
    rcases verdict with ⟨_, _, _, ended, _⟩ | ⟨_, _, fails⟩ | ⟨breaks, _⟩
    · cases broken.symm.trans ended
    · cases broken.symm.trans fails.ending
    · exact breaks
  · intro breaks
    obtain ⟨fault, _, fails⟩ := drain_breaks (d := start .chunked bound) (c := c) breaks holds
    exact ⟨fault, fails.ending⟩
  · rcases verdict with ⟨coding, rest, rfl, ended, holds'⟩ | ⟨_, _, fails⟩ | ⟨_, fault, _, fails⟩
    · refine .inl ⟨ended, coding.wire.length, ?_, ?_⟩
      · rw [List.length_append]
        exact Nat.le_add_right _ _
      · rwa [List.drop_left]
    · exact .inr ⟨.inl fails.ending, next_fails fails⟩
    · exact .inr ⟨.inr ⟨fault, fails.ending⟩, next_fails fails⟩

/-- A size with a zero in front and an extension behind, bare line feeds, a trailer, and a byte that
is not of the body any more. -/
theorem drain_chunked_loose :
    let size : Bytes := [0x30, 0x32, 0x3B, 0x61, 0x0A]
    let data : Bytes := [0x0D, 0x0A]
    let trailer : Bytes := [0x58, 0x0D, 0x0A]
    let x : Bytes := size ++ data ++ Bytes.crlf ++ [0x30, 0x0A] ++ trailer ++ [0x0A] ++ [0x47]
    let r : Reader := { arrivals := [.bytes (x.take 3), .bytes (x.drop 3)], capacity := 1 }
    let body := (start .chunked 1).drain r { limit := 0 }
    Arrival.Severed [] ∧ r.Holds x [] ∧ body.ending = .ok () ∧ body.pieces.flatten = data ∧
      body.reader.Holds [0x47] [] ∧ ¬ EndsInside x ∧ ¬ Breaks x := by
  intro size data trailer x r body
  have severed : Arrival.Severed [] := .inl rfl
  have holds : r.Holds x [] :=
    Reader.holds_segments Nat.one_pos [x.take 3, x.drop 3] []
  have line : ∀ text : Bytes, Bytes.lf ∉ text → text.getLast? ≠ some Bytes.cr →
      text.length < maxLine → IsLine text (text ++ [Bytes.lf]) := by
    intro text noLf noCr short
    refine ⟨.bare noLf noCr, ?_⟩
    rw [List.length_append]
    exact short
  have sized : IsSize 2 size :=
    ⟨[0x30, 0x32, 0x3B, 0x61], line _ (by decide) (by decide) (by decide), by decide +kernel⟩
  have lastSized : IsSize 0 [0x30, 0x0A] :=
    ⟨[0x30], line [0x30] (by decide) (by decide) (by decide), by decide +kernel⟩
  have isTrailer : IsTrailer trailer := ⟨[0x58], ⟨.crlf (by decide), by decide⟩, by decide⟩
  let part : Part := ⟨size, data, Bytes.crlf, List.cons_ne_nil _ _, sized, isLine_crlf⟩
  let coding : Coding := ⟨[part], [0x30, 0x0A], [trailer], [0x0A], lastSized,
    by simpa using isTrailer, line [] (by decide) (by decide) (by decide)⟩
  have codes : Codes (x.take 15) data := ⟨coding, rfl, rfl⟩
  obtain ⟨whole, cut, broken, _⟩ := drain_chunked 1 holds severed { limit := 0 }
  obtain ⟨ended, content, behind⟩ := (whole 15 (by decide) data).mpr codes
  refine ⟨severed, holds, ended, content, behind, fun inside => ?_, fun breaks => ?_⟩
  · cases ended.symm.trans (cut.mpr inside)
  · obtain ⟨_, failed⟩ := broken.mpr breaks
    cases ended.symm.trans failed

end Decoder

end HttpExchange
