import HttpExchange.Proofs.Body.Decoding
import HttpExchange.Proofs.Wire.Taking

/-!
Where a decoder stands in its body. Whatever arrives, and however the reading is interrupted, the
bytes that were taken off the input are those in front of the place where the decoder stands, until
it fails. It reports an end exactly where the body ends.
-/

namespace HttpExchange

namespace Decoder

open Chunk (IsLine IsSize IsTrailer Opening)

/-- Behind these bytes of a body with this framing, a decoder is in this state. -/
inductive Stands : Framing → (x : Bytes) → DecoderState → Prop where
  | chunk {x content : Bytes} {state : DecoderState} (opening : Opening state x content) :
      Stands .chunked x state
  | length (x : Bytes) (left : Nat) : Stands (.length (x.length + left)) x (.length left)
  | whole {f : Framing} {x : Bytes} {chunks : List Bytes} (spans : f.Spans x chunks) :
      Stands f x .done

variable {f : Framing} {x line b : Bytes} {state state' : DecoderState} {bound left : Nat}
  {r r' : Reader} {c c' : Clock}

theorem stands_start (own : f ≠ .untilClose) (bound : Nat) : Stands f [] (start f bound).state := by
  cases f with
  | empty => exact .whole .empty
  | length n =>
      have stands := Stands.length [] n
      rwa [List.length_nil, Nat.zero_add] at stands
  | chunked => exact .chunk (.size [])
  | untilClose => exact absurd rfl own

namespace Stands

theorem lastSize (stands : Stands f x .size) (sized : IsSize 0 line) :
    Stands f (x ++ line) .trailers := by
  cases stands with
  | chunk opening => exact .chunk (opening.lastSize sized)

theorem size {more : Nat} (stands : Stands f x .size) (sized : IsSize (more + 1) line) :
    Stands f (x ++ line) (.data more) := by
  cases stands with
  | chunk opening => exact .chunk (opening.nextSize sized)

theorem data {more : Nat} (stands : Stands f x (.data more)) (some : b ≠ [])
    (fits : b.length ≤ more + 1) :
    Stands f (x ++ b) (if more < b.length then .dataEnd else .data (more - b.length)) := by
  cases stands with
  | chunk opening => exact .chunk (opening.bytes some fits)

theorem lineEnd (stands : Stands f x .dataEnd) (blank : IsLine [] line) :
    Stands f (x ++ line) .size := by
  cases stands with
  | chunk opening => exact .chunk (opening.lineEnd blank)

theorem trailer (stands : Stands f x .trailers) (more : IsTrailer line) :
    Stands f (x ++ line) .trailers := by
  cases stands with
  | chunk opening => exact .chunk (opening.trailer more)

theorem ending (stands : Stands f x .trailers) (blank : IsLine [] line) :
    Stands f (x ++ line) .done := by
  cases stands with
  | chunk opening =>
      obtain ⟨coding, same, _⟩ := opening.ending blank
      rw [same]
      exact .whole (.chunked coding)

theorem counted (stands : Stands f x (.length left)) (fits : b.length ≤ left) :
    Stands f (x ++ b) (.length (left - b.length)) := by
  cases stands with
  | chunk opening => cases opening
  | length =>
      have size : x.length + left = (x ++ b).length + (left - b.length) := by
        rw [List.length_append]
        omega
      rw [size]
      exact .length (x ++ b) _

theorem reached (stands : Stands f x (.length 0)) : Stands f x .done := by
  cases stands with
  | chunk opening => cases opening
  | length => exact .whole (.length x)

end Stands

theorem readLine_takes {out : Outcome WireError Bytes} (eq : readLine r c = (out, r', c')) :
    ∃ b, r.Takes b r' ∧ (∀ text, out = .ok text → IsLine text b) ∧ (out = .stuck → b = []) := by
  unfold readLine at eq
  rcases read : r.line maxLine c with ⟨line | e | _, r₁, c₁⟩
  · obtain ⟨b, taken, same, _⟩ := Reader.lineOnto_takes read
    obtain rfl := same line rfl
    obtain ⟨short, ends⟩ := Reader.lineOnto_line List.not_mem_nil read
    rw [List.length_nil, Nat.zero_add] at short
    rw [read] at eq
    rcases ends with noLf | ⟨front, rfl, noLf⟩
    · have noEnd : line.getLast? ≠ some Bytes.lf := fun last => noLf (List.mem_of_getLast? last)
      simp only [if_neg noEnd] at eq
      split at eq <;> cases eq <;> exact ⟨line, taken, nofun, nofun⟩
    · simp only [List.getLast?_concat, if_true, List.dropLast_concat] at eq
      cases eq
      refine ⟨_, taken, ?_, nofun⟩
      rintro text same
      cases same
      exact ⟨.of_front noLf, short⟩
  · obtain ⟨b, taken, _⟩ := Reader.lineOnto_takes read
    rw [read] at eq
    cases eq
    exact ⟨b, taken, nofun, nofun⟩
  · obtain ⟨b, taken, _, nothing⟩ := Reader.lineOnto_takes read
    rw [read] at eq
    cases eq
    exact ⟨b, taken, nofun, fun _ => nothing rfl⟩

theorem readData_takes {out : Outcome WireError Bytes}
    (eq : readData left bound r c = (out, r', c')) :
    ∃ b, r.Takes b r' ∧ (∀ got, out = .ok got → got = b ∧ b.length = min left bound) ∧
      (out = .stuck → b = []) := by
  unfold readData at eq
  rcases read : r.exactly (min left bound) c with ⟨(_ | got) | e | _, r₁, c₁⟩
  all_goals
    obtain ⟨b, taken, whole, nothing⟩ := Reader.exactlyOnto_takes read
    rw [read] at eq
    cases eq
  · exact ⟨b, taken, nofun, nofun⟩
  · refine ⟨b, taken, ?_, nofun⟩
    rintro got' same
    cases same
    obtain ⟨rfl, size⟩ := whole got rfl
    exact ⟨rfl, size.trans (Nat.zero_add _)⟩
  · exact ⟨b, taken, nofun, nofun⟩
  · exact ⟨b, taken, nofun, fun _ => nothing rfl⟩

/-- Unless it fails, a decoder stands behind what it has taken. -/
theorem advance_stands {out : Outcome WireError Piece} (room : 0 < bound)
    (stands : Stands f x state) (eq : advance state bound r c = (out, state', r', c')) :
    ∃ b, r.Takes b r' ∧ ((∀ e, out ≠ .error e) → Stands f (x ++ b) state') := by
  fun_induction advance state bound r c generalizing x
  -- lines behind which the decoder goes on within the same answer
  case case2 read parsed ih =>
      obtain ⟨b, taken, isLine, _⟩ := readLine_takes read
      obtain ⟨more, takes, later⟩ := ih (stands.lastSize ⟨_, isLine _ rfl, parsed⟩) eq
      exact ⟨b ++ more, taken.trans takes, List.append_assoc x b more ▸ later⟩
  case case3 read n parsed ih =>
      obtain ⟨b, taken, isLine, _⟩ := readLine_takes read
      obtain ⟨more, takes, later⟩ := ih (stands.size ⟨_, isLine _ rfl, parsed⟩) eq
      exact ⟨b ++ more, taken.trans takes, List.append_assoc x b more ▸ later⟩
  case case9 read blank ih =>
      obtain ⟨b, taken, isLine, _⟩ := readLine_takes read
      rw [List.isEmpty_iff.mp blank] at isLine
      obtain ⟨more, takes, later⟩ := ih (stands.lineEnd (isLine _ rfl)) eq
      exact ⟨b ++ more, taken.trans takes, List.append_assoc x b more ▸ later⟩
  case case14 read some ih =>
      obtain ⟨b, taken, isLine, _⟩ := readLine_takes read
      have isTrailer : IsTrailer b := ⟨_, isLine _ rfl, by rwa [List.isEmpty_iff] at some⟩
      obtain ⟨more, takes, later⟩ := ih (stands.trailer isTrailer) eq
      exact ⟨b ++ more, taken.trans takes, List.append_assoc x b more ▸ later⟩
  -- answers
  case case6 read =>
      obtain ⟨b, taken, same, _⟩ := readData_takes read
      cases eq
      obtain ⟨got, size⟩ := same _ rfl
      have some : b ≠ [] := by
        rw [← List.length_pos_iff, size]
        omega
      rw [got]
      exact ⟨b, taken, fun _ => stands.data some (by omega)⟩
  case case13 read blank =>
      obtain ⟨b, taken, isLine, _⟩ := readLine_takes read
      rw [List.isEmpty_iff.mp blank] at isLine
      cases eq
      exact ⟨b, taken, fun _ => stands.ending (isLine _ rfl)⟩
  case case17 =>
      cases eq
      exact ⟨[], .refl _, fun _ => (List.append_nil x).symm ▸ stands.reached⟩
  case case18 read =>
      obtain ⟨b, taken, same, _⟩ := readData_takes read
      cases eq
      obtain ⟨got, size⟩ := same _ rfl
      rw [got]
      exact ⟨b, taken, fun _ => stands.counted (by omega)⟩
  case case25 =>
      cases eq
      exact ⟨[], .refl _, fun _ => (List.append_nil x).symm ▸ stands⟩
  -- no body with an end of its own stands here
  case case21 | case22 | case23 | case24 | case26 =>
      cases stands with
      | chunk opening => cases opening
  case case5 read | case12 read | case16 read =>
      obtain ⟨b, taken, _, nothing⟩ := readLine_takes read
      cases eq
      cases nothing rfl
      exact ⟨[], taken, fun _ => (List.append_nil x).symm ▸ stands⟩
  case case8 read | case20 read =>
      obtain ⟨b, taken, _, nothing⟩ := readData_takes read
      cases eq
      cases nothing rfl
      exact ⟨[], taken, fun _ => (List.append_nil x).symm ▸ stands⟩
  case case7 read | case19 read =>
      obtain ⟨b, taken, _⟩ := readData_takes read
      cases eq
      exact ⟨b, taken, fun other => absurd rfl (other _)⟩
  case case1 read _ _ | case4 read | case10 read _ | case11 read | case15 read =>
      obtain ⟨b, taken, _⟩ := readLine_takes read
      cases eq
      exact ⟨b, taken, fun other => absurd rfl (other _)⟩

theorem advance_ended (eq : advance state bound r c = (.ok .ended, state', r', c')) :
    state' = .done ∨ state = .failed := by
  fun_induction advance state bound r c
  case case2 ih | case3 ih | case9 ih | case14 ih =>
      rcases ih eq with done | failed
      · exact .inl done
      · cases failed
  case case13 | case17 | case21 | case25 =>
      cases eq
      exact .inl rfl
  case case26 => exact .inr rfl
  all_goals cases eq

theorem not_stands_failed : ¬ Stands f x .failed := by
  intro stands
  cases stands with
  | chunk opening => cases opening

/-- An answer of a decoder: its end, behind the whole body; an error, behind which it stands
nowhere; or no end yet. -/
theorem next_stands {d d' : Decoder} {out : Outcome WireError Piece} (stands : Stands f x d.state)
    (fresh : d.released = false) (eq : d.next r c = (out, d', r', c')) :
    ∃ b, r.Takes b r' ∧
      (out = .ok .ended ∧ d'.state = .done ∧ d'.released = true ∧ Stands f (x ++ b) .done ∨
        (∃ e, out = .error e) ∧ d'.state = .failed ∧ d'.released = false ∨
        ((∃ data, out = .ok (.data data)) ∨ out = .stuck) ∧ Stands f (x ++ b) d'.state ∧
          d'.released = false) := by
  have room : 0 < max 1 d.bound := by omega
  rcases step : advance d.state (max 1 d.bound) r c with ⟨answer, state, r₁, c₁⟩
  obtain ⟨b, taken, later⟩ := advance_stands room stands step
  unfold next at eq
  rw [step] at eq
  rcases answer with (data | _) | e | _
  all_goals
    cases eq
    refine ⟨b, taken, ?_⟩
  · exact .inr (.inr ⟨.inl ⟨data, rfl⟩, later (by simp), fresh⟩)
  · have done : state = .done := by
      rcases advance_ended step with done | failed
      · exact done
      · exact absurd (failed ▸ stands) not_stands_failed
    subst done
    exact .inl ⟨rfl, rfl, Bool.or_true _, later (by simp)⟩
  · exact .inr (.inl ⟨⟨e, rfl⟩, rfl, fresh⟩)
  · exact .inr (.inr ⟨.inr rfl, later (by simp), fresh⟩)

theorem spans_of_stands (stands : Stands f x .done) : ∃ chunks, f.Spans x chunks := by
  cases stands with
  | chunk opening => cases opening
  | whole spans => exact ⟨_, spans⟩

end Decoder

end HttpExchange
