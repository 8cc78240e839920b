import HttpExchange.Proofs.Body.Likeness
import HttpExchange.Proofs.Wire.Alike

/-!
Bodies behind readers that are alike. A body with an end of its own is read by lines and by counted
bytes, and so its pieces do not depend on what a buffer happens to hold.
-/

namespace HttpExchange

namespace Decoder

variable {r r₁ r' : Reader} {c c' : Clock}

theorem readLine_alike (alike : r.Alike r') {out : Outcome WireError Bytes}
    (eq : readLine r c = (out, r₁, c')) :
    ∃ r₁', readLine r' c = (out, r₁', c') ∧ r₁.Alike r₁' := by
  rcases read : r.line maxLine c with ⟨answer, r₂, c₂⟩
  obtain ⟨r₂', read', later⟩ := alike.lineOnto read
  have same : r'.line maxLine c = (answer, r₂', c₂) := read'
  rw [readLine, read] at eq
  rw [readLine, same]
  rcases answer with line | e | _
  · simp only at eq ⊢
    split at eq
    · next ended =>
        rw [if_pos ended]
        cases eq
        exact ⟨r₂', rfl, later⟩
    · next open_ =>
        rw [if_neg open_]
        split at eq
        · next long =>
            rw [if_pos long]
            cases eq
            exact ⟨r₂', rfl, later⟩
        · next short =>
            rw [if_neg short]
            cases eq
            exact ⟨r₂', rfl, later⟩
  · cases eq
    exact ⟨r₂', rfl, later⟩
  · cases eq
    exact ⟨r₂', rfl, later⟩

theorem readData_alike (alike : r.Alike r') {left bound : Nat} {out : Outcome WireError Bytes}
    (eq : readData left bound r c = (out, r₁, c')) :
    ∃ r₁', readData left bound r' c = (out, r₁', c') ∧ r₁.Alike r₁' := by
  rcases read : r.exactly (min left bound) c with ⟨answer, r₂, c₂⟩
  obtain ⟨r₂', read', later⟩ := alike.exactlyOnto read
  have same : r'.exactly (min left bound) c = (answer, r₂', c₂) := read'
  rw [readData, read] at eq
  rw [readData, same]
  rcases answer with (_ | b) | e | _
  all_goals
    cases eq
    exact ⟨r₂', rfl, later⟩

theorem advance_alike {state state' : DecoderState} {bound : Nat} {out : Outcome WireError Piece}
    (own : state ≠ .untilClose) (alike : r.Alike r')
    (eq : advance state bound r c = (out, state', r₁, c')) :
    ∃ r₁', advance state bound r' c = (out, state', r₁', c') ∧ r₁.Alike r₁' ∧
      state' ≠ .untilClose := by
  fun_induction advance state bound r c generalizing r'
  -- lines behind which the decoder goes on within the same answer
  case case2 read parsed ih =>
    obtain ⟨r₂', read', later⟩ := readLine_alike alike read
    rw [advance_lastSize read' parsed]
    exact ih DecoderState.noConfusion later eq
  case case3 read n parsed ih =>
    obtain ⟨r₂', read', later⟩ := readLine_alike alike read
    rw [advance_size read' parsed]
    exact ih DecoderState.noConfusion later eq
  case case9 read blank ih =>
    obtain ⟨r₂', read', later⟩ := readLine_alike alike read
    rw [List.isEmpty_iff.mp blank] at read'
    rw [advance_dataEnd read']
    exact ih DecoderState.noConfusion later eq
  case case14 read some ih =>
    obtain ⟨r₂', read', later⟩ := readLine_alike alike read
    rw [advance_trailer (by rwa [List.isEmpty_iff] at some) read']
    exact ih DecoderState.noConfusion later eq
  -- lines that end the answer
  case case1 read fault parsed =>
    obtain ⟨r₂', read', later⟩ := readLine_alike alike read
    cases eq
    refine ⟨r₂', ?_, later, DecoderState.noConfusion⟩
    rw [advance_of_line (.inl rfl) read']
    simp only [afterLine, parsed]
  case case10 read some =>
    obtain ⟨r₂', read', later⟩ := readLine_alike alike read
    cases eq
    refine ⟨r₂', ?_, later, DecoderState.noConfusion⟩
    rw [advance_of_line (.inr (.inl rfl)) read']
    simp only [afterLine, if_neg some]
  case case13 read blank =>
    obtain ⟨r₂', read', later⟩ := readLine_alike alike read
    rw [List.isEmpty_iff.mp blank] at read'
    cases eq
    exact ⟨r₂', advance_trailers read', later, DecoderState.noConfusion⟩
  case case4 read | case5 read =>
    obtain ⟨r₂', read', later⟩ := readLine_alike alike read
    cases eq
    refine ⟨r₂', ?_, later, DecoderState.noConfusion⟩
    rw [advance_atLine (.inl rfl), read']
  case case11 read | case12 read =>
    obtain ⟨r₂', read', later⟩ := readLine_alike alike read
    cases eq
    refine ⟨r₂', ?_, later, DecoderState.noConfusion⟩
    rw [advance_atLine (.inr (.inl rfl)), read']
  case case15 read | case16 read =>
    obtain ⟨r₂', read', later⟩ := readLine_alike alike read
    cases eq
    refine ⟨r₂', ?_, later, DecoderState.noConfusion⟩
    rw [advance_atLine (.inr (.inr rfl)), read']
  -- counted bytes
  case case6 more r c b r₂ c₂ read =>
    obtain ⟨r₂', read', later⟩ := readData_alike alike read
    cases eq
    refine ⟨r₂', ?_, later, ?_⟩
    · rw [advance, read']
    · split <;> exact DecoderState.noConfusion
  case case7 read | case8 read | case18 read | case19 read | case20 read =>
    obtain ⟨r₂', read', later⟩ := readData_alike alike read
    cases eq
    refine ⟨r₂', ?_, later, DecoderState.noConfusion⟩
    rw [advance, read']
  case case17 | case25 | case26 =>
    cases eq
    refine ⟨r', ?_, alike, DecoderState.noConfusion⟩
    rw [advance]
  case case21 | case22 | case23 | case24 => exact absurd rfl own

theorem next_alike {d d' : Decoder} {out : Outcome WireError Piece} (own : d.state ≠ .untilClose)
    (alike : r.Alike r') (eq : d.next r c = (out, d', r₁, c')) :
    ∃ r₁', d.next r' c = (out, d', r₁', c') ∧ r₁.Alike r₁' ∧ d'.state ≠ .untilClose := by
  rcases step : advance d.state (max 1 d.bound) r c with ⟨answer, state, r₂, c₂⟩
  obtain ⟨r₂', step', later, own'⟩ := advance_alike own alike step
  rw [next, step] at eq
  rw [next, step']
  rcases answer with (b | _) | e | _
  · cases eq
    exact ⟨r₂', rfl, later, own'⟩
  · cases eq
    exact ⟨r₂', rfl, later, own'⟩
  · cases eq
    exact ⟨r₂', rfl, later, DecoderState.noConfusion⟩
  · cases eq
    exact ⟨r₂', rfl, later, own'⟩

end Decoder

def Decoder.Likeness (R : Decoder → Reader → Reader → Prop) : Prop :=
  ∀ {d d₁ : Decoder} {r r' r₁ : Reader} {c c' : Clock} {out : Outcome WireError Piece}, R d r r' →
    d.next r c = (out, d₁, r₁, c') → ∃ r₁', d.next r' c = (out, d₁, r₁', c') ∧ R d₁ r₁ r₁'

/-- The readers are alike, and the body does not run until the end of the connection. -/
def Decoder.InFront (d : Decoder) (r r' : Reader) : Prop :=
  r.Alike r' ∧ d.state ≠ .untilClose

theorem Decoder.likeness_inFront : Likeness InFront := by
  intro d d₁ r r' r₁ c c' out inFront eq
  obtain ⟨r₁', same, alike, own⟩ := next_alike inFront.2 inFront.1 eq
  exact ⟨r₁', same, alike, own⟩

/-- Writers that take the same bytes in the same time, and fail alike. -/
structure Writer.Likeness (W : Writer → Writer → Prop) : Prop where
  writeAll : ∀ {w w' w₁ : Writer} {c c' : Clock} {b : Bytes} {out : Outcome IoFault Unit}, W w w' →
    w.writeAll b c = (out, w₁, c') → ∃ w₁', w'.writeAll b c = (out, w₁', c') ∧ W w₁ w₁'
  flush : ∀ {w w' w₁ : Writer} {c c' : Clock} {out : Outcome IoFault Unit}, W w w' →
    w.flush c = (out, w₁, c') → ∃ w₁', w'.flush c = (out, w₁', c') ∧ W w₁ w₁'
  pulled : ∀ {w w' : Writer}, W w w' → W (w.note .pulled) (w'.note .pulled)
  shut : ∀ {w w' : Writer}, W w w' → W (w.note .shut) (w'.note .shut)

theorem Writer.likeness_eq : Writer.Likeness Eq := by
  refine ⟨?_, ?_, ?_, ?_⟩
  · rintro w _ w₁ c c' b out rfl wrote
    exact ⟨w₁, wrote, rfl⟩
  · rintro w _ w₁ c c' out rfl flushed
    exact ⟨w₁, flushed, rfl⟩
  · rintro w _ rfl
    rfl
  · rintro w _ rfl
    rfl

namespace Link

/-- The links are at the same moment in front of the same input. -/
structure Alike (W : Writer → Writer → Prop) (l l' : Link) : Prop where
  clock : l'.clock = l.clock
  reader : l.reader.Alike l'.reader
  writer : W l.writer l'.writer

structure AlikeIn (R : Decoder → Reader → Reader → Prop) (W : Writer → Writer → Prop)
    (l l' : Link) : Prop where
  clock : l'.clock = l.clock
  body : l'.body = l.body
  reader : R l.body l.reader l'.reader
  writer : W l.writer l'.writer

variable {R : Decoder → Reader → Reader → Prop} {W : Writer → Writer → Prop} {l l' l₁ : Link}

theorem Alike.readHead (alike : Alike W l l') {limit : Nat}
    {out : Outcome WireError (Option Bytes)} (eq : l.readHead limit = (out, l₁)) :
    ∃ l₁', l'.readHead limit = (out, l₁') ∧ Alike W l₁ l₁' := by
  rcases read : Wire.readHead limit l.reader l.clock with ⟨answer, r, c⟩
  obtain ⟨r', read', later⟩ := alike.reader.readHead read
  rw [Link.readHead, read] at eq
  rw [Link.readHead, alike.clock, read']
  cases eq
  exact ⟨_, rfl, rfl, later, alike.writer⟩

theorem Alike.expect (alike : Alike W l l') {framing : Framing} (own : framing ≠ .untilClose)
    (bound : Nat) :
    AlikeIn Decoder.InFront W (l.expect framing bound) (l'.expect framing bound) := by
  refine ⟨alike.clock, rfl, ⟨alike.reader, ?_⟩, alike.writer⟩
  cases framing with
  | untilClose => exact absurd rfl own
  | empty | length n | chunked => exact nofun

theorem Alike.shutdown (like : Writer.Likeness W) (alike : Alike W l l') :
    Alike W l.shutdown l'.shutdown :=
  ⟨alike.clock, alike.reader, like.shut alike.writer⟩

theorem AlikeIn.alike (inside : AlikeIn Decoder.InFront W l l') : Alike W l l' :=
  ⟨inside.clock, inside.reader.1, inside.writer⟩

theorem AlikeIn.readPiece (likeR : Decoder.Likeness R) (alike : AlikeIn R W l l')
    {out : Outcome WireError Piece} (eq : l.readPiece = (out, l₁)) :
    ∃ l₁', l'.readPiece = (out, l₁') ∧ AlikeIn R W l₁ l₁' := by
  rcases read : l.body.next l.reader l.clock with ⟨answer, body, r, c⟩
  obtain ⟨r', read', later⟩ := likeR alike.reader read
  rw [Link.readPiece, read] at eq
  rw [Link.readPiece, alike.clock, alike.body, read']
  cases eq
  exact ⟨_, rfl, rfl, rfl, later, alike.writer⟩

theorem AlikeIn.writeAll (likeW : Writer.Likeness W) (alike : AlikeIn R W l l') {b : Bytes}
    {out : Outcome WireError Unit} (eq : l.writeAll b = (out, l₁)) :
    ∃ l₁', l'.writeAll b = (out, l₁') ∧ AlikeIn R W l₁ l₁' := by
  rcases wrote : l.writer.writeAll b l.clock with ⟨answer, w, c⟩
  obtain ⟨w', wrote', later⟩ := likeW.writeAll alike.writer wrote
  rw [Link.writeAll, wrote] at eq
  rw [Link.writeAll, alike.clock, wrote']
  cases eq
  exact ⟨_, rfl, rfl, alike.body, alike.reader, later⟩

theorem AlikeIn.flush (likeW : Writer.Likeness W) (alike : AlikeIn R W l l')
    {out : Outcome WireError Unit} (eq : l.flush = (out, l₁)) :
    ∃ l₁', l'.flush = (out, l₁') ∧ AlikeIn R W l₁ l₁' := by
  rcases wrote : l.writer.flush l.clock with ⟨answer, w, c⟩
  obtain ⟨w', wrote', later⟩ := likeW.flush alike.writer wrote
  rw [Link.flush, wrote] at eq
  rw [Link.flush, alike.clock, wrote']
  cases eq
  exact ⟨_, rfl, rfl, alike.body, alike.reader, later⟩

theorem likeness_alikeIn (likeR : Decoder.Likeness R) (likeW : Writer.Likeness W) :
    Likeness (AlikeIn R W) where
  clock alike := alike.clock
  body alike := alike.body
  timed _ alike := ⟨rfl, alike.body, alike.reader, alike.writer⟩
  readPiece alike eq := alike.readPiece likeR eq
  writeAll alike eq := alike.writeAll likeW eq
  flush alike eq := alike.flush likeW eq
  notePull alike := ⟨alike.clock, alike.body, alike.reader, likeW.pulled alike.writer⟩
  shutdown alike := ⟨alike.clock, alike.body, alike.reader, likeW.shut alike.writer⟩

end Link

end HttpExchange
