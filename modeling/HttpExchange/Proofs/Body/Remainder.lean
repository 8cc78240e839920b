import HttpExchange.Proofs.Body.Alike
import HttpExchange.Proofs.Body.Standing

/-!
What is left of a body. In front of the rest of a whole body each answer of a decoder follows from
that rest, whatever comes behind it, and leaves what is then the rest.
-/

namespace HttpExchange

namespace Decoder

open Chunk (IsLine IsSize IsTrailer Part Coding wireOf)

inductive Rest : DecoderState → (x : Bytes) → Prop where
  | size (coding : Coding) : Rest .size coding.wire
  | data {b ending : Bytes} {more : Nat} (size : b.length = more + 1) (blank : IsLine [] ending)
      (coding : Coding) : Rest (.data more) (b ++ (ending ++ coding.wire))
  | dataEnd {ending : Bytes} (blank : IsLine [] ending) (coding : Coding) :
      Rest .dataEnd (ending ++ coding.wire)
  | trailers {trailers : List Bytes} {ending : Bytes} (each : ∀ line ∈ trailers, IsTrailer line)
      (blank : IsLine [] ending) : Rest .trailers (trailers.flatten ++ ending)
  | length (b : Bytes) : Rest (.length b.length) b
  | done : Rest .done []

/-- In front of these bytes the decoder answers so, and leaves those. -/
def Answers (state : DecoderState) (bound : Nat) (x : Bytes) (piece : Piece)
    (state' : DecoderState) (x' : Bytes) : Prop :=
  ∀ (r : Reader) (y : Bytes) (tail : List Arrival) (c : Clock), r.Holds (x ++ y) tail →
    ∃ r', advance state bound r c = (.ok piece, state', r', c) ∧ r'.Holds (x' ++ y) tail

variable {state state₁ state' : DecoderState} {bound : Nat} {x x' line text b : Bytes}
  {piece : Piece} {f : Framing} {chunks : List Bytes}

theorem rest_start (spans : f.Spans x chunks) (bound : Nat) : Rest (start f bound).state x := by
  cases spans with
  | empty => exact .done
  | length => exact .length x
  | chunked coding => exact .size coding

theorem Rest.of_done (rest : Rest .done x) : x = [] := by
  cases rest
  rfl

/-- Behind a line the decoder goes on within the same answer. -/
theorem Answers.behind_line (answers : Answers state₁ bound x piece state' x')
    (isLine : IsLine text line)
    (goes : ∀ {r r' : Reader} {c : Clock}, readLine r c = (.ok text, r', c) →
      advance state bound r c = advance state₁ bound r' c) :
    Answers state bound (line ++ x) piece state' x' := by
  intro r y tail c holds
  rw [List.append_assoc] at holds
  obtain ⟨r₁, read, holds₁⟩ := readLine_line isLine holds c
  obtain ⟨r', answer, holds'⟩ := answers r₁ y tail c holds₁
  exact ⟨r', (goes read).trans answer, holds'⟩

theorem answers_counted {at_ : Nat → DecoderState} (counts : CountsDown at_) (bound : Nat)
    (some : b ≠ []) (x : Bytes) :
    Answers (at_ b.length) bound (b ++ x) (.data (b.take bound)) (at_ (b.drop bound).length)
      (b.drop bound ++ x) := by
  intro r y tail c holds
  obtain ⟨left, length⟩ : ∃ n, b.length = n + 1 :=
    ⟨b.length - 1, by have := List.length_pos_iff.mpr some; omega⟩
  have size : min (left + 1) bound = (b.take bound).length := by
    rw [List.length_take, length, Nat.min_comm]
  have split : b ++ x ++ y = b.take bound ++ (b.drop bound ++ x ++ y) := by
    rw [← List.append_assoc, ← List.append_assoc, List.take_append_drop]
  rw [split] at holds
  obtain ⟨r', read, holds'⟩ := readData_holds size holds c
  refine ⟨r', ?_, holds'⟩
  have fewer : left + 1 - (b.take bound).length = (b.drop bound).length := by
    rw [List.length_take, List.length_drop]
    omega
  rw [length, counts, read]
  simp only [fewer]

theorem answers_trailers {trailers : List Bytes} {ending : Bytes} (bound : Nat)
    (each : ∀ line ∈ trailers, IsTrailer line) (blank : IsLine [] ending) :
    Answers .trailers bound (trailers.flatten ++ ending) .ended .done [] := by
  induction trailers with
  | nil =>
      intro r y tail c holds
      obtain ⟨r', read, holds'⟩ := readLine_line blank holds c
      exact ⟨r', advance_trailers read, holds'⟩
  | cons line trailers ih =>
      obtain ⟨⟨text, isLine, some⟩, later⟩ := List.forall_mem_cons.mp each
      rw [List.flatten_cons, List.append_assoc]
      exact (ih later).behind_line isLine fun read => advance_trailer some read

theorem rest_inChunk {ending : Bytes} (b : Bytes) (blank : IsLine [] ending) (coding : Coding) :
    Rest (inChunk b.length) (b ++ (ending ++ coding.wire)) := by
  cases size : b.length with
  | zero =>
      rw [List.length_eq_zero_iff.mp size]
      exact .dataEnd blank coding
  | succ more => exact .data size blank coding

/-- One more answer in front of the rest of a body. An end comes only behind all of it. -/
def Goes (state : DecoderState) (bound : Nat) (x : Bytes) : Prop :=
  ∃ piece state' x', Answers state bound x piece state' x' ∧ Rest state' x' ∧
    (piece = .ended → state' = .done)

theorem goes_data {ending : Bytes} (bound : Nat) (some : b ≠ []) (blank : IsLine [] ending)
    (coding : Coding) : Goes (inChunk b.length) bound (b ++ (ending ++ coding.wire)) :=
  ⟨_, _, _, answers_counted inChunk_countsDown bound some _, rest_inChunk _ blank coding, nofun⟩

theorem Goes.behind_line (goes : Goes state₁ bound x) (isLine : IsLine text line)
    (same : ∀ {r r' : Reader} {c : Clock}, readLine r c = (.ok text, r', c) →
      advance state bound r c = advance state₁ bound r' c) : Goes state bound (line ++ x) := by
  obtain ⟨piece, state', x', answers, rest, ended⟩ := goes
  exact ⟨piece, state', x', answers.behind_line isLine same, rest, ended⟩

theorem goes_size (bound : Nat) (coding : Coding) : Goes .size bound coding.wire := by
  obtain ⟨parts, last, trailers, ending, ⟨text, isLine, parsed⟩, each, blank⟩ := coding
  cases parts with
  | nil =>
      have ends : Goes .trailers bound (trailers.flatten ++ ending) :=
        ⟨_, _, _, answers_trailers bound each blank, .done, fun _ => rfl⟩
      exact ends.behind_line isLine fun read => advance_lastSize read parsed
  | cons p parts =>
      obtain ⟨size, data, lineEnd, some, ⟨name, isSize, named⟩, bare⟩ := p
      let coding : Coding := ⟨parts, last, trailers, ending, ⟨text, isLine, parsed⟩, each, blank⟩
      obtain ⟨more, length⟩ : ∃ n, data.length = n + 1 :=
        ⟨data.length - 1, by have := List.length_pos_iff.mpr some; omega⟩
      have inside := goes_data bound some bare coding
      rw [length] at named inside
      have goes := inside.behind_line isSize fun read => advance_size read named
      have wire : Coding.wire ⟨⟨size, data, lineEnd, some, ⟨name, isSize, length ▸ named⟩, bare⟩ ::
          parts, last, trailers, ending, ⟨text, isLine, parsed⟩, each, blank⟩ =
          size ++ (data ++ (lineEnd ++ coding.wire)) := by
        simp only [Coding.wire, Chunk.wireOf_cons, Part.wire, List.append_assoc, coding]
      rw [wire]
      exact goes

theorem Rest.goes (rest : Rest state x) (bound : Nat) : Goes state bound x := by
  cases rest with
  | size coding => exact goes_size bound coding
  | data size blank coding =>
      have some := List.ne_nil_of_length_eq_add_one size
      have inside := goes_data bound some blank coding
      rwa [size] at inside
  | dataEnd blank coding =>
      exact (goes_size bound coding).behind_line blank fun read => advance_dataEnd read
  | trailers each blank => exact ⟨_, _, _, answers_trailers bound each blank, .done, fun _ => rfl⟩
  | length =>
      cases size : x.length with
      | zero =>
          rw [List.length_eq_zero_iff.mp size]
          exact ⟨.ended, .done, [], fun r _ _ _ holds => ⟨r, by rw [advance], holds⟩, .done, fun _ => rfl⟩
      | succ left =>
          have some := List.ne_nil_of_length_eq_add_one size
          have answers := answers_counted length_countsDown bound some []
          rw [List.append_nil, List.append_nil, size] at answers
          exact ⟨_, _, _, answers, .length _, Piece.noConfusion⟩
  | done => exact ⟨.ended, .done, [], fun r _ _ _ holds => ⟨r, by rw [advance], holds⟩, .done, fun _ => rfl⟩

/-- Both readers are in front of the rest of a body, one of them at the end of its input, the other
one with more behind. -/
structure Within (y : Bytes) (tail : List Arrival) (d : Decoder) (r r' : Reader) : Prop where
  rest : ∃ x, Rest d.state x ∧ r.Holds x [] ∧ r'.Holds (x ++ y) tail
  ended : d.released = true → d.state = .done

theorem within_start {y : Bytes} {tail : List Arrival} {r r' : Reader} (spans : f.Spans x chunks)
    (bound : Nat) (holds : r.Holds x []) (holds' : r'.Holds (x ++ y) tail) :
    Within y tail (start f bound) r r' := by
  refine ⟨⟨x, rest_start spans bound, holds, holds'⟩, ?_⟩
  intro released
  cases released

theorem likeness_within (y : Bytes) (tail : List Arrival) : Likeness (Within y tail) := by
  intro d d₁ r r' r₁ c c' out within eq
  obtain ⟨x, rest, holds, holds'⟩ := within.rest
  obtain ⟨piece, state, x', answers, rest', ended⟩ := rest.goes (max 1 d.bound)
  rw [← List.append_nil x] at holds
  obtain ⟨r₂, answer, left⟩ := answers r [] [] c holds
  obtain ⟨r₂', answer', left'⟩ := answers r' y tail c holds'
  rw [List.append_nil] at left
  rw [next, answer] at eq
  rw [next, answer']
  cases piece with
  | data b =>
      have open_ : d.released = true → False := by
        intro released
        rw [within.ended released, advance] at answer
        cases answer
      cases eq
      exact ⟨r₂', rfl, ⟨x', rest', left, left'⟩, fun released => (open_ released).elim⟩
  | ended =>
      obtain rfl := ended rfl
      cases eq
      exact ⟨r₂', rfl, ⟨x', rest', left, left'⟩, fun _ => rfl⟩

end Decoder

end HttpExchange
