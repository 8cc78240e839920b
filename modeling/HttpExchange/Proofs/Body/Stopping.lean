import HttpExchange.Proofs.Body.Decoding
import HttpExchange.Proofs.Body.Grammar
import HttpExchange.Proofs.Wire.Signal

/-!
What a decoder gives, and what stops it. Behind every answer it has passed the front of a body and
given the content of that front. An error has one cause, which the input decides: the input ended
where the body goes on, a read failed, or a line stands where it may not.
-/

namespace HttpExchange

theorem IoKind.isTeardown_iff (kind : IoKind) :
    kind.isTeardown = true ↔
      kind ∈ [unexpectedEof, connectionReset, connectionAborted, brokenPipe] := by
  cases kind <;> decide

/-- A peer that has gone away leaves the body incomplete; any other failure is told as it is. -/
theorem WireError.ofRead_eq (e : IoFault) :
    ofRead e = if e.kind ∈ [.unexpectedEof, .connectionReset, .connectionAborted, .brokenPipe] then
      incomplete else io e := by
  simp only [ofRead, IoKind.isTeardown_iff]

namespace Decoder

open Chunk (IsLine IsSize IsTrailer Opening)

inductive Cause where
  | ended
  | failed (e : IoFault)
  | broken (fault : ChunkFault)

def Cause.error : Cause → WireError
  | ended => .incomplete
  | failed e => .ofRead e
  | broken fault => .chunk fault

/-- Behind these bytes of a body a decoder is in this state, and has given this content. -/
inductive Carries : Framing → (x content : Bytes) → DecoderState → Prop where
  | chunk {x content : Bytes} {state : DecoderState} (opening : Opening state x content) :
      Carries .chunked x content state
  | length (x : Bytes) (left : Nat) : Carries (.length (x.length + left)) x x (.length left)
  | untilClose (x : Bytes) : Carries .untilClose x x .untilClose
  | empty : Carries .empty [] [] .done

/-- These bytes, behind which the reader stands, are a whole body with this content. -/
inductive Whole (r : Reader) : Framing → (x content : Bytes) → Prop where
  | spans {f : Framing} {x : Bytes} {chunks : List Bytes} (spans : f.Spans x chunks) :
      Whole r f x chunks.flatten
  | closed (spent : r.Spent) (x : Bytes) : Whole r .untilClose x x

/-- In this state the body cannot go on with these bytes, behind which the reader stands. -/
inductive Halts (r : Reader) : DecoderState → Bytes → Cause → Prop where
  /-- The input ends inside a line that is not too long yet. -/
  | line {state : DecoderState} {begun : Bytes} (atLine : AtLine state) (noLf : Bytes.lf ∉ begun)
      (short : begun.length < 4096) (spent : r.Spent) : Halts r state begun .ended
  /-- The input ends inside a chunk, or inside a body of known length. -/
  | count {state : DecoderState} {begun : Bytes} {left : Nat}
      (inside : state = inChunk left ∨ state = .length left) (short : begun.length < left)
      (spent : r.Spent) : Halts r state begun .ended
  | tooLong {state : DecoderState} {run : Bytes} (atLine : AtLine state) (noLf : Bytes.lf ∉ run)
      (long : run.length = 4096) : Halts r state run (.broken .lineTooLong)
  | badSize {text line : Bytes} {fault : ChunkFault} (isLine : IsLine text line)
      (bad : Chunk.parseSize text = .error fault) : Halts r .size line (.broken fault)
  | noLineEnd {text line : Bytes} (isLine : IsLine text line) (some : text ≠ []) :
      Halts r .dataEnd line (.broken .missingLineEnd)

/-- What stopped a decoder in this state, between where it stood and where reading came to. -/
inductive Stops (state : DecoderState) (r r' : Reader) : Cause → Prop where
  | halts {begun : Bytes} {cause : Cause} (passes : r.Passes begun r')
      (halts : Halts r' state begun cause) : Stops state r r' cause
  /-- A failure that passes stops only who takes whatever there is. -/
  | fails {begun : Bytes} {e : IoFault} (fails : r.Fails begun e r')
      (noticed : state = .untilClose ∨ e.kind.isTransient = false) : Stops state r r' (.failed e)

variable {f : Framing} {x line b content : Bytes} {state state' : DecoderState}
  {bound left : Nat} {r r₁ r' : Reader} {c c' : Clock} {cause cause' : Cause}

theorem Cause.error_eq_incomplete (cause : Cause) :
    cause.error = .incomplete ↔ cause = .ended ∨ ∃ e, cause = .failed e ∧
      e.kind ∈ [.unexpectedEof, .connectionReset, .connectionAborted, .brokenPipe] := by
  cases cause with
  | ended => exact ⟨fun _ => .inl rfl, fun _ => rfl⟩
  | failed e =>
      rw [error, WireError.ofRead_eq]
      constructor
      · intro same
        split at same
        · next gone => exact .inr ⟨e, rfl, gone⟩
        · cases same
      · rintro (other | ⟨_, same, gone⟩)
        · cases other
        · cases same
          exact if_pos gone
  | broken fault => exact ⟨nofun, by rintro (other | ⟨_, other, _⟩) <;> cases other⟩

theorem not_atLine_of_inside (inside : state = inChunk left ∨ state = .length left)
    (some : 0 < left) : ¬ AtLine state := by
  obtain ⟨more, rfl⟩ : ∃ n, left = n + 1 := ⟨left - 1, by omega⟩
  rintro (rfl | rfl | rfl) <;> rcases inside with other | other <;> cases other

theorem Halts.ne_untilClose (halts : Halts r state b cause) : state ≠ .untilClose := by
  rintro rfl
  cases halts with
  | line atLine | tooLong atLine => rcases atLine with other | other | other <;> cases other
  | @count _ _ left inside =>
      rcases inside with other | other
      · cases left <;> cases other
      · cases other

theorem Halts.unique (one : Halts r state b cause) (other : Halts r state b cause') :
    cause = cause' := by
  cases one with
  | line atLine noLf short =>
      cases other with
      | line | count => rfl
      | tooLong _ _ long => omega
      | badSize isLine | noLineEnd isLine => exact absurd isLine.ended.lf_mem noLf
  | count inside short =>
      have inData := not_atLine_of_inside inside (Nat.zero_lt_of_lt short)
      cases other with
      | line | count => rfl
      | tooLong atLine => exact absurd atLine inData
      | badSize => exact absurd (.inl rfl) inData
      | noLineEnd => exact absurd (.inr (.inl rfl)) inData
  | tooLong atLine noLf long =>
      cases other with
      | line _ _ short => omega
      | count inside short =>
          exact absurd atLine (not_atLine_of_inside inside (Nat.zero_lt_of_lt short))
      | tooLong => rfl
      | badSize isLine | noLineEnd isLine => exact absurd isLine.ended.lf_mem noLf
  | badSize isLine bad =>
      cases other with
      | line _ noLf | tooLong _ noLf => exact absurd isLine.ended.lf_mem noLf
      | count inside short =>
          exact absurd (.inl rfl) (not_atLine_of_inside inside (Nat.zero_lt_of_lt short))
      | badSize isLine' bad' =>
          rw [isLine.ended.text_unique isLine'.ended, bad'] at bad
          cases bad
          rfl
  | noLineEnd isLine =>
      cases other with
      | line _ noLf | tooLong _ noLf => exact absurd isLine.ended.lf_mem noLf
      | count inside short =>
          exact absurd (.inr (.inl rfl)) (not_atLine_of_inside inside (Nat.zero_lt_of_lt short))
      | noLineEnd => rfl

/-- What stopped a decoder between two places is one thing only. -/
theorem Stops.unique (one : Stops state r r' cause) (other : Stops state r r' cause') :
    cause = cause' := by
  have apart {begun e cause} (passes : r.Passes begun r') (halts : Halts r' state begun cause)
      {begun'} (fails : r.Fails begun' e r')
      (noticed : state = .untilClose ∨ e.kind.isTransient = false) : False := by
    rcases noticed with open_ | lasts
    · exact halts.ne_untilClose open_
    · exact Bool.false_ne_true (lasts.symm.trans (passes.transient_of_fails fails))
  cases one with
  | halts passes halts =>
      cases other with
      | halts passes' halts' =>
          rw [passes'.unique passes] at halts'
          exact halts.unique halts'
      | fails fails noticed => exact (apart passes halts fails noticed).elim
  | fails fails noticed =>
      cases other with
      | halts passes halts => exact (apart passes halts fails noticed).elim
      | fails fails' => rw [fails.unique fails']

inductive ReadsText (r r' : Reader) : Outcome WireError Bytes → Prop where
  | line {text line : Bytes} (passes : r.Passes line r') (isLine : IsLine text line) :
      ReadsText r r' (.ok text)
  | stopped (cause : Cause) (stops : ∀ state, AtLine state → Stops state r r' cause) :
      ReadsText r r' (.error cause.error)
  | stuck (waits : .wait ∈ r.signals) : ReadsText r r' .stuck

theorem readLine_reads {out : Outcome WireError Bytes} (eq : readLine r c = (out, r', c')) :
    ReadsText r r' out := by
  rcases read : r.line maxLine c with ⟨answer, r₁, c₁⟩
  have reads := Reader.line_reads read
  rw [readLine, read] at eq
  have noEnd {run : Bytes} (noLf : Bytes.lf ∉ run) : run.getLast? ≠ some Bytes.lf :=
    fun last => noLf (List.mem_of_getLast? last)
  cases reads with
  | whole front passes noLf fits =>
      simp only [List.getLast?_concat, if_true, List.dropLast_concat] at eq
      cases eq
      refine .line passes ⟨.of_front noLf, ?_⟩
      rwa [List.length_append, List.length_singleton]
  | full passes noLf long =>
      simp only [if_neg (noEnd noLf), if_pos (Nat.le_of_eq long.symm)] at eq
      cases eq
      exact .stopped (.broken _) fun _ atLine => .halts passes (.tooLong atLine noLf long)
  | spent passes noLf short spent =>
      simp only [if_neg (noEnd noLf), if_neg (Nat.not_le_of_lt short)] at eq
      cases eq
      exact .stopped .ended fun _ atLine => .halts passes (.line atLine noLf short spent)
  | fails fails lasts =>
      cases eq
      exact .stopped (.failed _) fun _ _ => .fails fails (.inr lasts)
  | stuck waits =>
      cases eq
      exact .stuck waits

inductive ReadsData (left bound : Nat) (r r' : Reader) : Outcome WireError Bytes → Prop where
  | bytes {b : Bytes} (passes : r.Passes b r') (size : b.length = min left bound) :
      ReadsData left bound r r' (.ok b)
  | stopped (cause : Cause)
      (stops : ∀ state, state = inChunk left ∨ state = .length left → Stops state r r' cause) :
      ReadsData left bound r r' (.error cause.error)
  | stuck (waits : .wait ∈ r.signals) : ReadsData left bound r r' .stuck

theorem readData_reads {out : Outcome WireError Bytes}
    (eq : readData left bound r c = (out, r', c')) : ReadsData left bound r r' out := by
  rcases read : r.exactly (min left bound) c with ⟨answer, r₁, c₁⟩
  have reads := Reader.exactly_reads read
  rw [readData, read] at eq
  cases reads with
  | whole passes size =>
      cases eq
      exact .bytes passes size
  | spent passes short spent =>
      cases eq
      have inside := Nat.lt_of_lt_of_le short (Nat.min_le_left left bound)
      exact .stopped .ended fun _ counts => .halts passes (.count counts inside spent)
  | fails fails lasts =>
      cases eq
      exact .stopped (.failed _) fun _ _ => .fails fails (.inr lasts)
  | stuck waits =>
      cases eq
      exact .stuck waits

theorem Whole.length (r : Reader) (x : Bytes) : Whole r (.length x.length) x x := by
  have whole := Whole.spans (r := r) (.length x)
  rwa [List.flatten_singleton] at whole

/-- What an answer comes to, behind bytes with this content. -/
inductive Reaches (f : Framing) (bound : Nat) (x content : Bytes) (r r' : Reader) :
    Outcome WireError Piece → DecoderState → Prop where
  | data {more b : Bytes} {state : DecoderState} (passes : r.Passes more r')
      (carries : Carries f (x ++ more) (content ++ b) state) (some : b ≠ [])
      (fits : b.length ≤ bound) : Reaches f bound x content r r' (.ok (.data b)) state
  | ended {more : Bytes} (passes : r.Passes more r') (whole : Whole r' f (x ++ more) content) :
      Reaches f bound x content r r' (.ok .ended) .done
  | stopped {more : Bytes} {state : DecoderState} {r₁ : Reader} {cause : Cause}
      (passes : r.Passes more r₁) (carries : Carries f (x ++ more) content state)
      (stops : Stops state r₁ r' cause) :
      Reaches f bound x content r r' (.error cause.error) state
  | stuck {state : DecoderState} (waits : .wait ∈ r.signals) :
      Reaches f bound x content r r' .stuck state

theorem Reaches.behind {out : Outcome WireError Piece} (passes : r.Passes line r₁)
    (reaches : Reaches f bound (x ++ line) content r₁ r' out state) :
    Reaches f bound x content r r' out state := by
  cases reaches with
  | data later carries some fits =>
      exact .data (passes.trans later) (List.append_assoc x line _ ▸ carries) some fits
  | ended later whole => exact .ended (passes.trans later) (List.append_assoc x line _ ▸ whole)
  | stopped later carries stops =>
      exact .stopped (passes.trans later) (List.append_assoc x line _ ▸ carries) stops
  | stuck waits => exact .stuck (passes.wait_mem waits)

theorem Reaches.here (cause : Cause) (carries : Carries f x content state)
    (stops : Stops state r r' cause) :
    Reaches f bound x content r r' (.error cause.error) state :=
  .stopped (.refl r) ((List.append_nil x).symm ▸ carries) stops

theorem Reaches.atEnd (passes : r.Passes [] r') (whole : Whole r' f x content) :
    Reaches f bound x content r r' (.ok .ended) .done :=
  .ended passes ((List.append_nil x).symm ▸ whole)

namespace Carries

theorem start (f : Framing) (bound : Nat) : Carries f [] [] (start f bound).state := by
  cases f with
  | empty => exact .empty
  | length n =>
      have carries := Carries.length [] n
      rwa [List.length_nil, Nat.zero_add] at carries
  | chunked => exact .chunk (.size [])
  | untilClose => exact .untilClose []

theorem counted (carries : Carries f x content (.length left)) (fits : b.length ≤ left) :
    Carries f (x ++ b) (content ++ b) (.length (left - b.length)) := by
  cases carries with
  | chunk opening => cases opening
  | length =>
      have size : x.length + left = (x ++ b).length + (left - b.length) := by
        rw [List.length_append]
        omega
      rw [size]
      exact .length (x ++ b) _

theorem not_failed : ¬ Carries f x content .failed := by
  intro carries
  cases carries with
  | chunk opening => cases opening

end Carries

/-- Every answer of a decoder that stands in a body follows from what the input brings. -/
theorem advance_reaches {out : Outcome WireError Piece} (room : 0 < bound)
    (carries : Carries f x content state) (eq : advance state bound r c = (out, state', r', c')) :
    Reaches f bound x content r r' out state' := by
  -- the content stays the same along the lines that are passed within one answer
  fun_induction advance state bound r c generalizing x
  case case2 read parsed ih =>
      cases readLine_reads read with
      | line passes isLine =>
          cases carries with
          | chunk opening =>
              exact (ih (.chunk (opening.lastSize ⟨_, isLine, parsed⟩)) eq).behind passes
  case case3 read more parsed ih =>
      cases readLine_reads read with
      | line passes isLine =>
          cases carries with
          | chunk opening =>
              exact (ih (.chunk (opening.nextSize ⟨_, isLine, parsed⟩)) eq).behind passes
  case case9 read blank ih =>
      cases readLine_reads read with
      | line passes isLine =>
          rw [List.isEmpty_iff.mp blank] at isLine
          cases carries with
          | chunk opening => exact (ih (.chunk (opening.lineEnd isLine)) eq).behind passes
  case case14 read some ih =>
      cases readLine_reads read with
      | line passes isLine =>
          rw [List.isEmpty_iff] at some
          cases carries with
          | chunk opening =>
              exact (ih (.chunk (opening.trailer ⟨_, isLine, some⟩)) eq).behind passes
  -- lines that end the answer
  case case1 read fault parsed =>
      cases eq
      cases readLine_reads read with
      | line passes isLine =>
          exact .here (.broken fault) carries (.halts passes (.badSize isLine parsed))
  case case10 read some =>
      cases eq
      rw [List.isEmpty_iff] at some
      cases readLine_reads read with
      | line passes isLine =>
          exact .here (.broken _) carries (.halts passes (.noLineEnd isLine some))
  case case13 read blank =>
      cases eq
      rw [List.isEmpty_iff.mp blank] at read
      cases readLine_reads read with
      | line passes isLine =>
          cases carries with
          | chunk opening =>
              obtain ⟨coding, same, rfl⟩ := opening.ending isLine
              exact .ended passes (same ▸ .spans (.chunked coding))
  case case4 read =>
      cases eq
      cases readLine_reads read with
      | stopped cause stops => exact .here cause carries (stops _ (.inl rfl))
  case case11 read =>
      cases eq
      cases readLine_reads read with
      | stopped cause stops => exact .here cause carries (stops _ (.inr (.inl rfl)))
  case case15 read =>
      cases eq
      cases readLine_reads read with
      | stopped cause stops => exact .here cause carries (stops _ (.inr (.inr rfl)))
  case case5 read | case12 read | case16 read =>
      cases eq
      cases readLine_reads read with
      | stuck waits => exact .stuck waits
  -- counted bytes
  case case6 more b r₁ c₁ read =>
      cases eq
      cases readData_reads read with
      | bytes passes size =>
          have some : b ≠ [] := List.length_pos_iff.mp (by omega)
          cases carries with
          | chunk opening =>
              exact .data passes (.chunk (opening.bytes some (by omega))) some (by omega)
  case case18 left b r₁ c₁ read =>
      cases eq
      cases readData_reads read with
      | bytes passes size =>
          have some : b ≠ [] := List.length_pos_iff.mp (by omega)
          exact .data passes (carries.counted (by omega)) some (by omega)
  case case7 read =>
      cases eq
      cases readData_reads read with
      | stopped cause stops => exact .here cause carries (stops _ (.inl rfl))
  case case19 read =>
      cases eq
      cases readData_reads read with
      | stopped cause stops => exact .here cause carries (stops _ (.inr rfl))
  case case8 read | case20 read =>
      cases eq
      cases readData_reads read with
      | stuck waits => exact .stuck waits
  case case17 =>
      cases eq
      cases carries with
      | chunk opening => cases opening
      | length => exact .atEnd (.refl _) (.length _ _)
  -- whatever there is
  case case21 read none =>
      cases eq
      cases Reader.available_reads room read with
      | bytes _ some => exact absurd (List.isEmpty_iff.mp none) some
      | spent passes spent =>
          cases carries with
          | chunk opening => cases opening
          | untilClose => exact .atEnd passes (.closed spent _)
  case case22 read some =>
      cases eq
      cases Reader.available_reads room read with
      | bytes passes some fits =>
          cases carries with
          | chunk opening => cases opening
          | untilClose => exact .data passes (.untilClose _) some fits
      | spent => exact absurd List.isEmpty_nil some
  case case23 read =>
      cases eq
      cases Reader.available_reads room read with
      | fails fails => exact .here (.failed _) carries (.fails fails (.inl rfl))
  case case24 read =>
      cases eq
      cases Reader.available_reads room read with
      | stuck waits => exact .stuck waits
  case case25 =>
      cases eq
      cases carries with
      | chunk opening => cases opening
      | empty => exact .atEnd (.refl _) (.spans .empty)
  case case26 => exact absurd carries Carries.not_failed

end Decoder

end HttpExchange
