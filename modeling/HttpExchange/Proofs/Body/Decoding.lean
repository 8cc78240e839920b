import HttpExchange.Proofs.Body.Grammar
import HttpExchange.Proofs.Wire.Supply
import Mathlib.Data.List.Infix

/-!
All of a body. A decoder that is asked until it has no more gives pieces and an ending. In front of
known bytes both follow from the framing: the pieces are the chunks, cut where they exceed the
bound, and the ending is in order exactly if the bytes go as far as the framing says.
-/

namespace HttpExchange

/-- Bytes in pieces of at most `most` bytes, each but the last as long as it may be. Zero counts as
one. -/
def Bytes.cut (most : Nat) (b : Bytes) : List Bytes :=
  if b.isEmpty then [] else b.take (max 1 most) :: cut most (b.drop (max 1 most))
termination_by b.length
decreasing_by
  next some =>
    rw [List.isEmpty_iff] at some
    have pos := List.length_pos_iff.2 some
    rw [List.length_drop]
    omega

theorem Bytes.cut_nil (most : Nat) : cut most [] = [] := by rw [cut, if_pos List.isEmpty_nil]

theorem Bytes.cut_of_ne_nil (most : Nat) {b : Bytes} (some : b ≠ []) :
    cut most b = b.take (max 1 most) :: cut most (b.drop (max 1 most)) := by
  rw [cut, if_neg (by rwa [List.isEmpty_iff])]

theorem Bytes.cut_of_le {most : Nat} {b : Bytes} (some : b ≠ []) (short : b.length ≤ most) :
    cut most b = [b] := by
  have whole : b.length ≤ max 1 most := Nat.le_trans short (Nat.le_max_right 1 most)
  rw [cut_of_ne_nil most some, List.take_of_length_le whole, List.drop_of_length_le whole, cut_nil]

theorem Bytes.flatten_cut (most : Nat) (b : Bytes) : (cut most b).flatten = b := by
  fun_induction cut most b with
  | case1 b none => rw [List.isEmpty_iff.mp none, List.flatten_nil]
  | case2 b some ih => rw [List.flatten_cons, ih, List.take_append_drop]

theorem Bytes.flatten_flatMap_cut (most : Nat) (chunks : List Bytes) :
    (chunks.flatMap (cut most)).flatten = chunks.flatten := by
  induction chunks with
  | nil => rfl
  | cons b chunks ih =>
      rw [List.flatMap_cons, List.flatten_append, ih, flatten_cut, List.flatten_cons]

structure Decoded where
  /-- What was handed out, in order. -/
  pieces : List Bytes
  ending : Outcome WireError Unit
  decoder : Decoder
  reader : Reader
  clock : Clock

namespace Decoded

def behind (pieces : List Bytes) (d : Decoded) : Decoded := { d with pieces := pieces ++ d.pieces }

/-- The body was cut short: the one error says so, nothing follows it, and what was handed out is a
beginning of the whole. -/
structure CutShort (d : Decoded) (whole : Bytes) : Prop where
  ending : d.ending = .error .incomplete
  state : d.decoder.state = .failed
  pieces : d.pieces.flatten <+: whole

structure Fails (body : Decoded) (d : Decoder) (e : WireError) (pieces : List Bytes) : Prop where
  ending : body.ending = .error e
  decoder : body.decoder = { d with state := .failed }
  pieces : body.pieces <+: pieces

variable {body : Decoded} {d : Decoder} {e : WireError} {pieces : List Bytes}

theorem Fails.mono {more : List Bytes} (fails : body.Fails d e pieces) (part : pieces <+: more) :
    body.Fails d e more :=
  ⟨fails.ending, fails.decoder, fails.pieces.trans part⟩

theorem Fails.behind (fails : body.Fails d e pieces) (before : List Bytes) :
    (body.behind before).Fails d e (before ++ pieces) :=
  ⟨fails.ending, fails.decoder, (List.prefix_append_right_inj before).mpr fails.pieces⟩

theorem Fails.cutShort (fails : body.Fails d .incomplete pieces) : body.CutShort pieces.flatten := by
  refine ⟨fails.ending, by rw [fails.decoder], ?_⟩
  obtain ⟨rest, same⟩ := fails.pieces
  rw [← same, List.flatten_append]
  exact List.prefix_append _ _

theorem behind_behind (first second : List Bytes) (d : Decoded) :
    (d.behind second).behind first = d.behind (first ++ second) := by
  rw [behind, behind, behind, List.append_assoc]

end Decoded

namespace Decoder

def drain (d : Decoder) (r : Reader) (c : Clock) : Decoded :=
  match _read : d.next r c with
  | (.ok (.data b), d, r, c) => (drain d r c).behind [b]
  | (.ok .ended, d, r, c) => ⟨[], .ok (), d, r, c⟩
  | (.error e, d, r, c) => ⟨[], .error e, d, r, c⟩
  | (.stuck, d, r, c) => ⟨[], .stuck, d, r, c⟩
termination_by r.weight
decreasing_by exact (weight_next _read).2 _ rfl

variable {d : Decoder} {r r' : Reader} {c c' : Clock} {x y b : Bytes} {tail : List Arrival}

theorem drain_eq (d : Decoder) (r : Reader) (c : Clock) :
    d.drain r c = match d.next r c with
      | (.ok (.data b), d, r, c) => (drain d r c).behind [b]
      | (.ok .ended, d, r, c) => ⟨[], .ok (), d, r, c⟩
      | (.error e, d, r, c) => ⟨[], .error e, d, r, c⟩
      | (.stuck, d, r, c) => ⟨[], .stuck, d, r, c⟩ := by
  rw [drain]
  split <;> next read => rw [read]

theorem next_failed (failed : d.state = .failed) (r : Reader) (c : Clock) :
    d.next r c = (.ok .ended, d, r, c) := by
  obtain ⟨state, bound, released⟩ := d
  cases failed
  rw [next, advance]
  exact congrArg (fun x => (Outcome.ok Piece.ended, Decoder.mk .failed bound x, r, c))
    (Bool.or_false released)

theorem next_done (done : d.state = .done) (r : Reader) (c : Clock) :
    d.next r c = (.ok .ended, { d with released := true }, r, c) := by
  obtain ⟨state, bound, released⟩ := d
  cases done
  rw [next, advance]
  exact congrArg (fun x => (Outcome.ok Piece.ended, Decoder.mk .done bound x, r, c))
    (Bool.or_true released)

theorem readLine_line {text line : Bytes} (isLine : Chunk.IsLine text line)
    (holds : r.Holds (line ++ y) tail) (c : Clock) :
    ∃ r', readLine r c = (.ok text, r', c) ∧ r'.Holds y tail := by
  obtain ⟨front, rfl, noLf, bare⟩ := isLine.ended.front
  have fits : front.length < maxLine := by
    have short := isLine.short
    rwa [List.length_append, List.length_singleton] at short
  rw [List.append_assoc] at holds
  obtain ⟨r', read, holds'⟩ := Reader.line_holds noLf fits holds c
  refine ⟨r', ?_, holds'⟩
  rw [readLine, read]
  simp only [List.getLast?_concat, if_true, List.dropLast_concat]
  rw [← bare, Bytes.textOf]

theorem readLine_severed {line : Bytes} (noLf : Bytes.lf ∉ line) (fits : line.length < maxLine)
    (holds : r.Holds line tail) (severed : Arrival.Severed tail) (c : Clock) :
    ∃ r', readLine r c = (.error .incomplete, r', c) := by
  obtain ⟨r', read | ⟨fault, failed, gone⟩⟩ := Reader.line_severed noLf fits holds severed c
  · refine ⟨r', ?_⟩
    have noEnd : line.getLast? ≠ some Bytes.lf := fun last => noLf (List.mem_of_getLast? last)
    rw [readLine, read]
    simp only [if_neg noEnd, if_neg (Nat.not_le_of_lt fits)]
  · refine ⟨r', ?_⟩
    rw [readLine, failed]
    simp only [WireError.ofRead_teardown gone]

theorem readLine_tooLong {run : Bytes} (noLf : Bytes.lf ∉ run) (long : run.length = maxLine)
    (holds : r.Holds (run ++ y) tail) (c : Clock) :
    ∃ r', readLine r c = (.error (.chunk .lineTooLong), r', c) := by
  obtain ⟨r', passed, _, _⟩ :=
    Reader.lineOnto_append [] noLf (Nat.le_of_eq long) holds c
  refine ⟨r', ?_⟩
  have noEnd : run.getLast? ≠ some Bytes.lf := fun last => noLf (List.mem_of_getLast? last)
  rw [long, Nat.sub_self, Reader.lineOnto, List.append_nil, List.reverse_reverse] at passed
  rw [readLine, Reader.line, passed]
  simp only [if_neg noEnd, if_pos (Nat.le_of_eq long.symm)]

theorem readData_holds {left bound : Nat} (size : min left bound = b.length)
    (holds : r.Holds (b ++ y) tail) (c : Clock) :
    ∃ r', readData left bound r c = (.ok b, r', c) ∧ r'.Holds y tail := by
  obtain ⟨r', read, holds'⟩ := Reader.exactly_holds holds c
  refine ⟨r', ?_, holds'⟩
  rw [readData, size, read]

theorem readData_severed {left bound : Nat} (more : x.length < min left bound)
    (holds : r.Holds x tail) (severed : Arrival.Severed tail) (c : Clock) :
    ∃ r', readData left bound r c = (.error .incomplete, r', c) := by
  obtain ⟨r', read | ⟨fault, failed, gone⟩⟩ := Reader.exactly_severed holds severed more c
  · refine ⟨r', ?_⟩
    rw [readData, read]
  · refine ⟨r', ?_⟩
    rw [readData, failed]
    simp only [WireError.ofRead_teardown gone]

theorem drain_of_advance_data {state state' : DecoderState}
    (step : advance state (max 1 d.bound) r c = (.ok (.data b), state', r', c')) :
    ({ d with state } : Decoder).drain r c =
      (({ d with state := state' } : Decoder).drain r' c').behind [b] := by
  rw [drain_eq, next]
  simp only [step]

theorem drain_of_advance_ended {state state' : DecoderState}
    (step : advance state (max 1 d.bound) r c = (.ok .ended, state', r', c')) :
    ({ d with state } : Decoder).drain r c =
      ⟨[], .ok (), { d with state := state', released := d.released || state' == .done },
        r', c'⟩ := by
  rw [drain_eq, next]
  simp only [step]

theorem drain_of_advance_error {state state' : DecoderState} {e : WireError}
    (step : advance state (max 1 d.bound) r c = (.error e, state', r', c')) :
    ({ d with state } : Decoder).drain r c =
      ⟨[], .error e, { d with state := .failed }, r', c'⟩ := by
  rw [drain_eq, next]
  simp only [step]

theorem drain_of_advance_eq {state state' : DecoderState}
    (same : advance state (max 1 d.bound) r c = advance state' (max 1 d.bound) r' c') :
    ({ d with state } : Decoder).drain r c = ({ d with state := state' } : Decoder).drain r' c' := by
  rw [drain_eq, drain_eq, next, next]
  simp only [same]

/-- How a decoder goes on behind the text of a line. -/
def afterLine (state : DecoderState) (bound : Nat) (text : Bytes) (r : Reader) (c : Clock) :
    Outcome WireError Piece × DecoderState × Reader × Clock :=
  match state with
  | .size => match Chunk.parseSize text with
    | .error fault => (.error (.chunk fault), .size, r, c)
    | .ok 0 => advance .trailers bound r c
    | .ok (n + 1) => advance (.data n) bound r c
  | .dataEnd =>
    if text.isEmpty then advance .size bound r c
    else (.error (.chunk .missingLineEnd), .dataEnd, r, c)
  | _ => if text.isEmpty then (.ok .ended, .done, r, c) else advance .trailers bound r c

theorem advance_atLine {state : DecoderState} (atLine : AtLine state) (bound : Nat) (r : Reader)
    (c : Clock) :
    advance state bound r c = match readLine r c with
      | (.ok text, r', c') => afterLine state bound text r' c'
      | (.error e, r', c') => (.error e, state, r', c')
      | (.stuck, r', c') => (.stuck, state, r', c') := by
  rcases atLine with rfl | rfl | rfl
  all_goals
    conv => lhs; rw [advance]
    split <;> next read => simp only [read] <;> rfl

theorem advance_of_line {state : DecoderState} {bound : Nat} {text : Bytes} (atLine : AtLine state)
    (read : readLine r c = (.ok text, r', c')) :
    advance state bound r c = afterLine state bound text r' c' := by
  rw [advance_atLine atLine, read]

theorem advance_size {bound n : Nat} {text : Bytes} (read : readLine r c = (.ok text, r', c'))
    (size : Chunk.parseSize text = .ok (n + 1)) :
    advance .size bound r c = advance (.data n) bound r' c' := by
  rw [advance_of_line (.inl rfl) read]
  simp only [afterLine, size]

theorem advance_lastSize {bound : Nat} {text : Bytes} (read : readLine r c = (.ok text, r', c'))
    (size : Chunk.parseSize text = .ok 0) :
    advance .size bound r c = advance .trailers bound r' c' := by
  rw [advance_of_line (.inl rfl) read]
  simp only [afterLine, size]

theorem advance_dataEnd {bound : Nat} (read : readLine r c = (.ok [], r', c')) :
    advance .dataEnd bound r c = advance .size bound r' c' :=
  advance_of_line (.inr (.inl rfl)) read

theorem advance_trailers {bound : Nat} (read : readLine r c = (.ok [], r', c')) :
    advance .trailers bound r c = (.ok .ended, .done, r', c') :=
  advance_of_line (.inr (.inr rfl)) read

theorem advance_trailer {bound : Nat} {text : Bytes} (some : text ≠ [])
    (read : readLine r c = (.ok text, r', c')) :
    advance .trailers bound r c = advance .trailers bound r' c' := by
  rw [advance_of_line (.inr (.inr rfl)) read]
  simp only [afterLine, List.isEmpty_iff, if_neg some]

theorem advance_refused (bound : Nat) {state : DecoderState} {text : Bytes}
    (atLine : AtLine state) (read : readLine r c = (.ok text, r', c'))
    (refused : ¬ Chunk.Accepts state text) :
    ∃ fault, advance state bound r c = (.error (.chunk fault), state, r', c') := by
  rw [advance_of_line atLine read]
  rcases atLine with rfl | rfl | rfl
  · cases parsed : Chunk.parseSize text with
    | ok size => exact absurd ⟨size, parsed⟩ refused
    | error fault =>
        refine ⟨fault, ?_⟩
        simp only [afterLine, parsed]
  · have some : text ≠ [] := refused
    refine ⟨.missingLineEnd, ?_⟩
    simp only [afterLine, List.isEmpty_iff, if_neg some]
  · exact absurd trivial refused

theorem drain_line_error {state : DecoderState} {e : WireError} (atLine : AtLine state)
    (read : readLine r c = (.error e, r', c')) :
    (({ d with state } : Decoder).drain r c).Fails d e [] := by
  have step : advance state (max 1 d.bound) r c = (.error e, state, r', c') := by
    rw [advance_atLine atLine, read]
  rw [drain_of_advance_error step]
  exact ⟨rfl, rfl, List.prefix_refl []⟩

theorem drain_line_severed {state : DecoderState} {line : Bytes} (atLine : AtLine state)
    (noLf : Bytes.lf ∉ line) (fits : line.length < maxLine) (holds : r.Holds line tail)
    (severed : Arrival.Severed tail) :
    (({ d with state } : Decoder).drain r c).Fails d .incomplete [] := by
  obtain ⟨r', read⟩ := readLine_severed noLf fits holds severed c
  exact drain_line_error atLine read

/-- States that only count what is left, down to none. -/
def CountsDown (at_ : Nat → DecoderState) : Prop :=
  ∀ left bound r c, advance (at_ (left + 1)) bound r c =
    match readData (left + 1) bound r c with
    | (.ok b, r', c') => (.ok (.data b), at_ (left + 1 - b.length), r', c')
    | (.error e, r', c') => (.error e, at_ (left + 1), r', c')
    | (.stuck, r', c') => (.stuck, at_ (left + 1), r', c')

def inChunk : Nat → DecoderState
  | 0 => .dataEnd
  | more + 1 => .data more

theorem inChunk_countsDown : CountsDown inChunk := by
  intro left bound r c
  rw [inChunk, advance]
  rcases readData (left + 1) bound r c with ⟨b | e | _, r', c'⟩
  · by_cases last : left < b.length
    · have none : left + 1 - b.length = 0 := by omega
      simp only [if_pos last, none, inChunk]
    · have some : left + 1 - b.length = (left - b.length) + 1 := by omega
      simp only [if_neg last, some, inChunk]
  · rfl
  · rfl

theorem length_countsDown : CountsDown DecoderState.length := by
  intro left bound r c
  unfold advance
  rcases readData (left + 1) bound r c with ⟨b | e | _, r', c'⟩ <;> rfl

theorem drain_counted {at_ : Nat → DecoderState} (counts : CountsDown at_)
    (holds : r.Holds (b ++ y) tail) :
    ∃ r', ({ d with state := at_ b.length } : Decoder).drain r c =
        (({ d with state := at_ 0 } : Decoder).drain r' c).behind (Bytes.cut d.bound b) ∧
      r'.Holds y tail := by
  induction size : b.length using Nat.strongRecOn generalizing b r with
  | ind n ih =>
      subst size
      cases b with
      | nil =>
          refine ⟨r, ?_, holds⟩
          rw [Bytes.cut_nil]
          rfl
      | cons first more =>
          let piece := (first :: more).take (max 1 d.bound)
          let rest := (first :: more).drop (max 1 d.bound)
          have whole : first :: more = piece ++ rest := (List.take_append_drop _ _).symm
          have pos : 0 < piece.length := by
            simp only [piece, List.length_take, List.length_cons]
            omega
          have sum : (first :: more).length = piece.length + rest.length := by
            rw [whole, List.length_append]
          have most : min (more.length + 1) (max 1 d.bound) = piece.length := by
            simp only [piece, List.length_take, List.length_cons]
            omega
          rw [whole, List.append_assoc] at holds
          obtain ⟨r₁, read, holds₁⟩ := readData_holds most holds c
          obtain ⟨r', later, holds'⟩ := ih rest.length (by omega) holds₁ rfl
          refine ⟨r', ?_, holds'⟩
          have step := counts more.length (max 1 d.bound) r c
          rw [read] at step
          rw [List.length_cons, drain_of_advance_data step,
            show more.length + 1 - piece.length = rest.length by rw [List.length_cons] at sum; omega,
            later, Bytes.cut_of_ne_nil d.bound (List.cons_ne_nil first more)]
          rfl

/-- Counted bytes of which the last do not come are handed out as far as whole pieces go. -/
theorem drain_counted_severed {at_ : Nat → DecoderState} (counts : CountsDown at_)
    (part : x <+: b) (shorter : x.length < b.length) (holds : r.Holds x tail)
    (severed : Arrival.Severed tail) :
    (({ d with state := at_ b.length } : Decoder).drain r c).Fails d .incomplete
      (Bytes.cut d.bound b) := by
  induction size : b.length using Nat.strongRecOn generalizing b x r with
  | ind n ih =>
      subst size
      obtain ⟨left, length⟩ : ∃ n, b.length = n + 1 := ⟨b.length - 1, by omega⟩
      have step := counts left (max 1 d.bound) r c
      rw [← length] at step
      by_cases short : x.length < min b.length (max 1 d.bound)
      · obtain ⟨r', read⟩ := readData_severed short holds severed c
        rw [read] at step
        rw [drain_of_advance_error step]
        exact ⟨rfl, rfl, List.nil_prefix⟩
      · let piece := x.take (max 1 d.bound)
        have whole : x = piece ++ x.drop (max 1 d.bound) := (List.take_append_drop _ _).symm
        have first : piece.length = max 1 d.bound := by
          rw [List.length_take]
          omega
        have same : b.take (max 1 d.bound) = piece := by
          obtain ⟨rest, rfl⟩ := part
          exact List.take_append_of_le_length (by omega)
        have most : min b.length (max 1 d.bound) = piece.length := by omega
        have fewer : (x.drop (max 1 d.bound)).length < (b.drop (max 1 d.bound)).length := by
          rw [List.length_drop, List.length_drop]
          omega
        have smaller : (b.drop (max 1 d.bound)).length < b.length := by
          rw [List.length_drop]
          omega
        rw [whole] at holds
        obtain ⟨r', read, holds'⟩ := readData_holds most holds c
        have rest := ih _ smaller (part.drop _) fewer holds' rfl
        rw [read] at step
        simp only [first, ← List.length_drop] at step
        rw [drain_of_advance_data step, Bytes.cut_of_ne_nil d.bound
          (List.ne_nil_of_length_eq_add_one length), same]
        exact rest.behind [piece]

end Decoder

end HttpExchange
