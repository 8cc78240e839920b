import HttpExchange.Proofs.Body.Consumption
import HttpExchange.Proofs.Body.Pulling
import HttpExchange.Proofs.Body.Settling
import HttpExchange.Proofs.Wire.Punctual

/-!
The loop inside one answer of a decoder. A turn either answers, or goes on in another state. Every
turn that goes on takes bytes off the input or is the last but one, so there are no more turns than
bytes, but for two. Chunks are not empty either, so there are no more chunks than bytes: what sizes
are claimed in front of them makes no difference.
-/

namespace HttpExchange

namespace Decoder

variable {d d' : Decoder} {state state' : DecoderState} {bound left n : Nat} {r r' : Reader}
  {c c' : Clock} {out : Outcome WireError Piece} {answer : Option (Outcome WireError Piece)}

/-- A turn that reads a line, which leads to another state or is refused. -/
def byLine (state : DecoderState) (r : Reader) (c : Clock)
    (leads : Bytes → Except WireError DecoderState) :
    Option (Outcome WireError Piece) × DecoderState × Reader × Clock :=
  match readLine r c with
  | (.ok line, r, c) => match leads line with
    | .ok behind => (none, behind, r, c)
    | .error e => (some (.error e), state, r, c)
  | (.error e, r, c) => (some (.error e), state, r, c)
  | (.stuck, r, c) => (some .stuck, state, r, c)

/-- A turn that answers with the next bytes of a body or a chunk that has `left` bytes left. -/
def byData (state : DecoderState) (left bound : Nat) (r : Reader) (c : Clock)
    (behind : Nat → DecoderState) :
    Option (Outcome WireError Piece) × DecoderState × Reader × Clock :=
  match readData left bound r c with
  | (.ok b, r, c) => (some (.ok (.data b)), behind b.length, r, c)
  | (.error e, r, c) => (some (.error e), state, r, c)
  | (.stuck, r, c) => (some .stuck, state, r, c)

/-- One turn of the loop: an answer, unless the loop goes on, and the state behind it. -/
def turn (state : DecoderState) (bound : Nat) (r : Reader) (c : Clock) :
    Option (Outcome WireError Piece) × DecoderState × Reader × Clock :=
  match state with
  | .size => byLine .size r c fun line => match Chunk.parseSize line with
    | .error fault => .error (.chunk fault)
    | .ok 0 => .ok .trailers
    | .ok (n + 1) => .ok (.data n)
  | .data more => byData (.data more) (more + 1) bound r c fun got =>
    if more < got then .dataEnd else .data (more - got)
  | .dataEnd => byLine .dataEnd r c fun line =>
    if line.isEmpty then .ok .size else .error (.chunk .missingLineEnd)
  | .trailers => byLine .trailers r c fun line => .ok (if line.isEmpty then .done else .trailers)
  | .length 0 => (none, .done, r, c)
  | .length (n + 1) => byData (.length (n + 1)) (n + 1) bound r c fun got => .length (n + 1 - got)
  | .untilClose => match r.available bound c with
    | (.ok b, r, c) =>
      if b.isEmpty then (none, .done, r, c) else (some (.ok (.data b)), .untilClose, r, c)
    | (.error e, r, c) => (some (.error (.ofRead e)), .untilClose, r, c)
    | (.stuck, r, c) => (some .stuck, .untilClose, r, c)
  | .done => (some (.ok .ended), .done, r, c)
  | .failed => (some (.ok .ended), .failed, r, c)

def loop (bound : Nat) : (turns : Nat) → DecoderState → Reader → Clock →
    Option (Outcome WireError Piece × DecoderState × Reader × Clock)
  | 0, _, _, _ => none
  | turns + 1, state, r, c => match turn state bound r c with
    | (some out, behind) => some (out, behind)
    | (none, state, r, c) => loop bound turns state r c

theorem advance_eq_turn (state : DecoderState) (bound : Nat) (r : Reader) (c : Clock) :
    advance state bound r c = match turn state bound r c with
      | (some out, behind) => (out, behind)
      | (none, state, r, c) => advance state bound r c := by
  cases state with
  | size =>
      rw [advance, turn, byLine]
      rcases readLine r c with ⟨line | e | _, r₁, c₁⟩
      · dsimp only
        rcases Chunk.parseSize line with fault | _ | n <;> rfl
      · rfl
      · rfl
  | dataEnd =>
      rw [advance, turn, byLine]
      rcases readLine r c with ⟨line | e | _, r₁, c₁⟩
      · dsimp only
        cases line.isEmpty <;> rfl
      · rfl
      · rfl
  | trailers =>
      rw [advance, turn, byLine]
      rcases readLine r c with ⟨line | e | _, r₁, c₁⟩
      · cases none : line.isEmpty
        · simp only [none, Bool.false_eq_true, if_false]
        · simp only [none, if_true]
          rw [advance]
      · rfl
      · rfl
  | data more =>
      rw [advance, turn, byData]
      rcases readData (more + 1) bound r c with ⟨b | e | _, r₁, c₁⟩ <;> rfl
  | length left =>
      cases left with
      | zero => simp only [turn, advance]
      | succ n =>
          rw [advance, turn, byData]
          rcases readData (n + 1) bound r c with ⟨b | e | _, r₁, c₁⟩ <;> rfl
  | untilClose =>
      rw [advance, turn]
      rcases r.available bound c with ⟨b | e | _, r₁, c₁⟩
      · cases none : b.isEmpty
        · simp only [none, Bool.false_eq_true, if_false]
        · simp only [none, if_true, advance]
      · rfl
      · rfl
  | done | failed => rw [advance, turn]

/-- The loop goes on behind some bytes, or for one last turn; or it answers, with a chunk that was
there, or with something else. -/
inductive Turns (r r' : Reader) (behind : DecoderState) :
    Option (Outcome WireError Piece) → Prop where
  | goesOn {b : Bytes} (takes : r.Takes b r') (more : b ≠ []) : Turns r r' behind none
  | finishes (takes : r.Takes [] r') (done : behind = .done) : Turns r r' behind none
  | gives {b : Bytes} (takes : r.Takes b r') (more : b ≠ []) : Turns r r' behind (some (given b))
  | answers {b : Bytes} {out : Outcome WireError Piece} (takes : r.Takes b r')
      (other : ∀ chunk, out ≠ given chunk) : Turns r r' behind (some out)

theorem error_ne_given (e : WireError) (chunk : Bytes) : .error e ≠ given chunk := nofun

theorem stuck_ne_given (chunk : Bytes) : .stuck ≠ given chunk := nofun

theorem ended_ne_given (chunk : Bytes) : .ok .ended ≠ given chunk := nofun

/-- No line is read without a byte. -/
theorem byLine_turns {leads : Bytes → Except WireError DecoderState}
    (eq : byLine state r c leads = (answer, state', r', c')) : Turns r r' state' answer := by
  rcases read : readLine r c with ⟨line | e | _, r₁, c₁⟩
  all_goals
    obtain ⟨b, takes, isLine, _⟩ := readLine_takes read
    rw [byLine, read] at eq
  · dsimp only at eq
    split at eq
    · cases eq
      exact .goesOn takes (isLine line rfl).ended.ne_nil
    · cases eq
      exact .answers takes (error_ne_given _)
  · cases eq
    exact .answers takes (error_ne_given e)
  · cases eq
    exact .answers takes stuck_ne_given

theorem byData_turns {behind : Nat → DecoderState} (pos : 0 < left) (room : 0 < bound)
    (eq : byData state left bound r c behind = (answer, state', r', c')) :
    Turns r r' state' answer := by
  rcases read : readData left bound r c with ⟨got | e | _, r₁, c₁⟩
  all_goals
    obtain ⟨b, takes, whole, _⟩ := readData_takes read
    rw [byData, read] at eq
    cases eq
  · obtain ⟨rfl, size⟩ := whole got rfl
    have some : got ≠ [] := by
      rw [← List.length_pos_iff, size]
      omega
    exact .gives takes some
  · exact .answers takes (error_ne_given e)
  · exact .answers takes stuck_ne_given

theorem turn_turns (room : 0 < bound) (eq : turn state bound r c = (answer, state', r', c')) :
    Turns r r' state' answer := by
  cases state with
  | size | dataEnd | trailers =>
      rw [turn] at eq
      exact byLine_turns eq
  | data more =>
      rw [turn] at eq
      exact byData_turns (Nat.succ_pos more) room eq
  | length left =>
      cases left with
      | zero =>
          cases eq
          exact .finishes (.refl r) rfl
      | succ n =>
          rw [turn] at eq
          exact byData_turns (Nat.succ_pos n) room eq
  | untilClose =>
      rcases read : r.available bound c with ⟨got | e | _, r₁, c₁⟩
      all_goals
        obtain ⟨b, takes, same⟩ := Reader.available_takes read
        rw [turn, read] at eq
      · obtain rfl := same got rfl
        dsimp only at eq
        split at eq
        · next none =>
            cases eq
            rw [List.isEmpty_iff.mp none] at takes
            exact .finishes takes rfl
        · next some =>
            cases eq
            exact .gives takes (mt List.isEmpty_iff.mpr some)
      · cases eq
        exact .answers takes (error_ne_given _)
      · cases eq
        exact .answers takes stuck_ne_given
  | done | failed =>
      cases eq
      exact .answers (.refl r) ended_ne_given

theorem inTime_readLine {out : Outcome WireError Bytes} (eq : readLine r c = (out, r', c'))
    (inTime : r.InTime c) : out ≠ .stuck ∧ r'.InTime c' := by
  rcases read : r.line maxLine c with ⟨line | e | _, r₁, c₁⟩
  all_goals
    obtain ⟨came, later⟩ := Reader.inTime_lineOnto read inTime
    rw [readLine, read] at eq
  · dsimp only at eq
    split at eq
    · cases eq
      exact ⟨Outcome.ok_ne_stuck _, later⟩
    · split at eq
      all_goals
        cases eq
        exact ⟨Outcome.error_ne_stuck _, later⟩
  · cases eq
    exact ⟨Outcome.error_ne_stuck _, later⟩
  · exact absurd rfl came

theorem inTime_readData {out : Outcome WireError Bytes}
    (eq : readData left bound r c = (out, r', c')) (inTime : r.InTime c) :
    out ≠ .stuck ∧ r'.InTime c' := by
  rcases read : r.exactly (min left bound) c with ⟨(_ | got) | e | _, r₁, c₁⟩
  all_goals
    obtain ⟨came, later⟩ := Reader.inTime_exactlyOnto read inTime
    rw [readData, read] at eq
  · cases eq
    exact ⟨Outcome.error_ne_stuck _, later⟩
  · cases eq
    exact ⟨Outcome.ok_ne_stuck _, later⟩
  · cases eq
    exact ⟨Outcome.error_ne_stuck _, later⟩
  · exact absurd rfl came

theorem inTime_byLine {leads : Bytes → Except WireError DecoderState}
    (eq : byLine state r c leads = (answer, state', r', c')) (inTime : r.InTime c) :
    answer ≠ some .stuck ∧ r'.InTime c' := by
  rcases read : readLine r c with ⟨line | e | _, r₁, c₁⟩
  all_goals
    obtain ⟨came, later⟩ := inTime_readLine read inTime
    rw [byLine, read] at eq
  · dsimp only at eq
    split at eq <;> cases eq <;> exact ⟨by simp, later⟩
  · cases eq
    exact ⟨by simp, later⟩
  · exact absurd rfl came

theorem inTime_byData {behind : Nat → DecoderState}
    (eq : byData state left bound r c behind = (answer, state', r', c')) (inTime : r.InTime c) :
    answer ≠ some .stuck ∧ r'.InTime c' := by
  rcases read : readData left bound r c with ⟨got | e | _, r₁, c₁⟩
  all_goals
    obtain ⟨came, later⟩ := inTime_readData read inTime
    rw [byData, read] at eq
  · cases eq
    exact ⟨by simp, later⟩
  · cases eq
    exact ⟨by simp, later⟩
  · exact absurd rfl came

/-- Nothing that comes in time lets a turn get stuck. -/
theorem inTime_turn (eq : turn state bound r c = (answer, state', r', c')) (inTime : r.InTime c) :
    answer ≠ some .stuck ∧ r'.InTime c' := by
  cases state with
  | size | dataEnd | trailers =>
      rw [turn] at eq
      exact inTime_byLine eq inTime
  | data =>
      rw [turn] at eq
      exact inTime_byData eq inTime
  | length left =>
      cases left with
      | zero =>
          cases eq
          exact ⟨by simp, inTime⟩
      | succ n =>
          rw [turn] at eq
          exact inTime_byData eq inTime
  | untilClose =>
      rcases read : r.available bound c with ⟨got | e | _, r₁, c₁⟩
      all_goals
        obtain ⟨came, later⟩ := Reader.inTime_available read inTime
        rw [turn, read] at eq
      · dsimp only at eq
        split at eq <;> cases eq <;> exact ⟨by simp, later⟩
      · cases eq
        exact ⟨by simp, later⟩
      · exact absurd rfl came
  | done | failed =>
      cases eq
      exact ⟨by simp, inTime⟩

/-- There are never more turns than bytes, but for two, and what they come to is what a decoder
answers. -/
theorem loop_eq_advance (room : 0 < bound) (enough : r.ahead.length + 2 ≤ n) (state : DecoderState)
    (c : Clock) : loop bound n state r c = some (advance state bound r c) := by
  induction n generalizing state r c with
  | zero => exact absurd enough (Nat.not_succ_le_zero _)
  | succ n ih =>
      rw [loop, advance_eq_turn]
      rcases turned : turn state bound r c with ⟨_ | out, state₁, r₁, c₁⟩
      · cases turn_turns room turned with
        | goesOn takes more =>
            have fewer : r₁.ahead.length < r.ahead.length := by
              have pos := List.length_pos_iff.mpr more
              rw [takes, List.length_append]
              omega
            exact ih (by omega) state₁ c₁
        | finishes _ done =>
            subst done
            obtain ⟨m, rfl⟩ : ∃ m, n = m + 1 := ⟨n - 1, by omega⟩
            dsimp only
            rw [loop, advance]
            rfl
      · rfl

/-- Chunks are bytes that were there, and none of them is empty. -/
theorem loop_takes (room : 0 < bound)
    (eq : loop bound n state r c = some (out, state', r', c')) :
    ∃ b, r.Takes b r' ∧ ∀ chunk, out = given chunk → 1 ≤ b.length := by
  induction n generalizing state r c with
  | zero => cases eq
  | succ n ih =>
      rw [loop] at eq
      rcases turned : turn state bound r c with ⟨_ | out, state₁, r₁, c₁⟩
      all_goals
        rw [turned] at eq
      · obtain ⟨b, takes, some⟩ := ih eq
        cases turn_turns room turned with
        | goesOn first more =>
            refine ⟨_, first.trans takes, fun chunk same => ?_⟩
            rw [List.length_append]
            exact Nat.le_add_left_of_le (some chunk same)
        | finishes first _ => exact ⟨_, first.trans takes, some⟩
      · cases eq
        cases turn_turns room turned with
        | gives takes more => exact ⟨_, takes, fun _ _ => List.length_pos_iff.mpr more⟩
        | answers takes other => exact ⟨_, takes, fun chunk same => absurd same (other chunk)⟩

theorem inTime_loop (eq : loop bound n state r c = some (out, state', r', c'))
    (inTime : r.InTime c) : out ≠ .stuck ∧ r'.InTime c' := by
  induction n generalizing state r c with
  | zero => cases eq
  | succ n ih =>
      rw [loop] at eq
      rcases turned : turn state bound r c with ⟨_ | out, state₁, r₁, c₁⟩
      all_goals
        obtain ⟨came, later⟩ := inTime_turn turned inTime
        rw [turned] at eq
      · exact ih eq later
      · cases eq
        exact ⟨fun stuck => came (congrArg some stuck), later⟩

theorem next_loop (eq : d.next r c = (out, d', r', c')) :
    ∃ n state, loop (max 1 d.bound) n d.state r c = some (out, state, r', c') := by
  have ends :=
    loop_eq_advance (Nat.le_max_left 1 d.bound) (Nat.le_refl (r.ahead.length + 2)) d.state c
  rcases step : advance d.state (max 1 d.bound) r c with ⟨answer, state, r₁, c₁⟩
  rw [step] at ends
  rw [next, step] at eq
  rcases answer with (chunk | _) | e | _
  all_goals
    cases eq
    exact ⟨_, state, ends⟩

theorem next_takes (eq : d.next r c = (out, d', r', c')) :
    ∃ b, r.Takes b r' ∧ ∀ chunk, out = given chunk → 1 ≤ b.length := by
  obtain ⟨n, state, ends⟩ := next_loop eq
  exact loop_takes (Nat.le_max_left 1 d.bound) ends

theorem inTime_next (eq : d.next r c = (out, d', r', c')) (inTime : r.InTime c) :
    out ≠ .stuck ∧ r'.InTime c' := by
  obtain ⟨n, state, ends⟩ := next_loop eq
  exact inTime_loop ends inTime

def chunk? : Outcome WireError Piece → Option Bytes
  | .ok (.data b) => some b
  | .ok .ended | .error _ | .stuck => none

/-- However often a decoder is asked, there are no more chunks than bytes. -/
theorem length_chunks_le (d : Decoder) (n : Nat) (r : Reader) (c : Clock) :
    ((d.pulls n r c).answers.filterMap chunk?).length ≤ r.ahead.length := by
  induction n generalizing d r c with
  | zero => exact Nat.zero_le _
  | succ n ih =>
      rcases read : d.next r c with ⟨out, d', r', c'⟩
      obtain ⟨b, takes, some⟩ := next_takes read
      have rest := ih d' r' c'
      rw [pulls_succ read, Pulled.behind, takes, List.length_append]
      rcases out with (chunk | _) | e | _
      · have pos := some chunk rfl
        simp only [List.filterMap_cons, chunk?, List.length_cons]
        omega
      all_goals
        simp only [List.filterMap_cons, chunk?]
        omega

theorem inTime_pulls (d : Decoder) (n : Nat) (inTime : r.InTime c) :
    .stuck ∉ (d.pulls n r c).answers := by
  induction n generalizing d r c with
  | zero => exact List.not_mem_nil
  | succ n ih =>
      rcases read : d.next r c with ⟨out, d', r', c'⟩
      obtain ⟨came, later⟩ := inTime_next read inTime
      rw [pulls_succ read, Pulled.behind]
      exact List.not_mem_cons_of_ne_of_not_mem came.symm (ih d' later)

end Decoder

def Pull.chunk? : Pull → Option Bytes
  | .chunk b => some b
  | .failed _ | .ended | .cancelled | .stuck => none

namespace Producer

variable {l l' : Link} {p p' : Producer} {answer : Pull} {answers : List Pull}

theorem pull_incoming_next (eq : incoming.pull l = (answer, p', l')) :
    p' = incoming ∧ ∃ out, l.body.next l.reader l.clock = (out, l'.body, l'.reader, l'.clock) ∧
      (∀ b, answer = .chunk b → out = Decoder.given b) ∧
      (answer = .cancelled ∨ answer = .stuck → out = .stuck) := by
  rw [pull, ask, Link.readPiece] at eq
  rcases read : l.body.next l.reader l.clock with ⟨(b | _) | e | _, d', r', c'⟩
  all_goals
    rw [read] at eq
    cases eq
    exact ⟨rfl, _, rfl, by simp [Decoder.given], by simp⟩

theorem Pulls.length_chunks_le (pulls : p.Pulls Eq l answers p' l') (relays : p = incoming) :
    (answers.filterMap Pull.chunk?).length ≤ l.reader.ahead.length := by
  induction pulls with
  | none => exact Nat.zero_le _
  | meanwhile same _ ih => exact same ▸ ih relays
  | @next _ _ _ _ _ _ answer _ asked _ ih =>
      subst relays
      obtain ⟨relays, out, read, chunk, _⟩ := pull_incoming_next asked
      obtain ⟨b, takes, some⟩ := Decoder.next_takes read
      have rest := ih relays
      rw [takes, List.length_append]
      cases answer with
      | chunk b' =>
          have pos := some b' (chunk b' rfl)
          simp only [List.filterMap_cons, Pull.chunk?, List.length_cons]
          omega
      | failed | ended | cancelled | stuck =>
          simp only [List.filterMap_cons, Pull.chunk?]
          omega

theorem Pulls.inTime (pulls : p.Pulls Eq l answers p' l') (relays : p = incoming)
    (inTime : l.reader.InTime l.clock) :
    ∀ answer ∈ answers, answer ≠ .cancelled ∧ answer ≠ .stuck := by
  induction pulls with
  | none => exact List.forall_mem_nil _
  | meanwhile same _ ih => exact ih relays (same ▸ inTime)
  | next asked _ ih =>
      subst relays
      obtain ⟨relays, out, read, _, stuck⟩ := pull_incoming_next asked
      obtain ⟨came, later⟩ := Decoder.inTime_next read inTime
      refine List.forall_mem_cons.mpr ⟨?_, ih relays later⟩
      exact ⟨fun same => came (stuck (.inl same)), fun same => came (stuck (.inr same))⟩

theorem Pulls.relays (pulls : p.Pulls Eq l answers p' l') (relays : p = incoming) :
    p' = incoming := by
  induction pulls with
  | none => exact relays
  | meanwhile _ _ ih => exact ih relays
  | next asked _ ih => exact ih (pull_incoming (relays ▸ asked))

/-- Collecting takes no more chunks than there are bytes, and comes to something once they have
come. -/
theorem collect_incoming {out : Outcome BodyError Bytes} (eq : incoming.collect l = (out, l')) :
    ∃ chunks last, incoming.Pulls Eq l (chunks.map .chunk ++ [last]) incoming l' ∧
      Collects chunks last out ∧ chunks.length ≤ l.reader.ahead.length ∧
      (l.reader.InTime l.clock → out ≠ .stuck) := by
  obtain ⟨chunks, last, p', pulls, collects⟩ := collectOnto_pulled Eq eq
  rw [List.reverse_nil, List.nil_append] at collects
  obtain rfl := pulls.relays rfl
  refine ⟨chunks, last, pulls, collects, ?_, fun inTime => ?_⟩
  · have fewer := pulls.length_chunks_le rfl
    have same : (chunks.map Pull.chunk).filterMap Pull.chunk? = chunks := by
      rw [List.filterMap_map]
      exact List.filterMap_some
    rw [List.filterMap_append, same, List.length_append] at fewer
    omega
  · obtain ⟨kept, came⟩ := pulls.inTime rfl inTime last (List.mem_append_right _ List.mem_cons_self)
    cases collects with
    | whole => exact Outcome.ok_ne_stuck _
    | failed => exact Outcome.error_ne_stuck _
    | cancelled => exact absurd rfl kept
    | stuck => exact absurd rfl came

end Producer

namespace Decoder

/-- The loop inside an answer always ends. A turn that goes on takes bytes off the input, or there
is one more turn and it answers; so the answer is there behind no more turns than there are bytes,
but for two. However often a decoder is asked, there are no more chunks than bytes. On an input that
is never silent for good it answers each time, once everything has come; and whoever collects the
body gets it or an error, with no more pulls than bytes, but for one. -/
theorem loop_ends (d : Decoder) (r : Reader) (c : Clock) (sounds : .silence ∉ r.arrivals) :
    (∀ {state state' : DecoderState} {r₁ r₂ : Reader} {c₁ c₂ : Clock},
      turn state (max 1 d.bound) r₁ c₁ = (none, state', r₂, c₂) →
        ∃ b, r₁.Takes b r₂ ∧ (b ≠ [] ∨ state' = .done)) ∧
    loop (max 1 d.bound) (r.ahead.length + 2) d.state r c =
      some (advance d.state (max 1 d.bound) r c) ∧
    (∀ n, ((d.pulls n r c).answers.filterMap chunk?).length ≤ r.ahead.length) ∧
    ∃ enough, ∀ limit, enough ≤ limit →
      (∀ n, .stuck ∉ (d.pulls n r (c.limited limit)).answers) ∧
      ∀ w : Writer,
        let l : Link := { clock := c.limited limit, reader := r, writer := w, body := d }
        ∃ out l', (Body.ofProducer .incoming).aggregate l = (out, { consumed := true }, l') ∧
          out ≠ .stuck ∧ ∃ chunks last,
            Producer.incoming.Pulls Eq l (chunks.map .chunk ++ [last]) .incoming l' ∧
            Producer.Collects chunks last out ∧ chunks.length ≤ r.ahead.length := by
  have room := Nat.le_max_left 1 d.bound
  refine ⟨fun turned => ?_, loop_eq_advance room (Nat.le_refl _) d.state c,
    fun n => length_chunks_le d n r c, ?_⟩
  · cases turn_turns room turned with
    | goesOn takes more => exact ⟨_, takes, .inl more⟩
    | finishes takes done => exact ⟨_, takes, .inr done⟩
  · obtain ⟨enough, inTime⟩ := Arrival.exists_inTime sounds c
    refine ⟨enough, fun limit late => ⟨fun n => inTime_pulls d n (inTime limit late), ?_⟩⟩
    intro w l
    rcases collected : Producer.incoming.collect l with ⟨out, l'⟩
    obtain ⟨chunks, last, pulls, collects, fewer, came⟩ := Producer.collect_incoming collected
    refine ⟨out, l', ?_, came (inTime limit late), chunks, last, pulls, collects, fewer⟩
    simp only [Body.aggregate, Body.take, Body.ofProducer, Body.producer, Bool.false_eq_true,
      if_false, collected]

/-- A chunk that claims as many bytes as a size can say, and has two, one of them late. -/
theorem loop_ends_claimed :
    let claim := List.replicate 16 70 ++ Bytes.crlf
    let r : Reader :=
      { arrivals := [.bytes (claim ++ [97]), .pause 5, .bytes [98]], capacity := 8 }
    let d := start .chunked 1
    .silence ∉ r.arrivals ∧
      (loop 1 22 .size r { limit := 0 }).map (fun answer => (answer.1, answer.2.1)) =
        some (given [97], .data (Numeral.bound64 - 3)) ∧
      ((d.pulls 9 r { limit := 0 }).answers.filterMap chunk?).length ≤ 20 ∧
      ∃ enough, ∀ limit, enough ≤ limit → .stuck ∉ (d.pulls 9 r { limit }).answers ∧
        ∀ writer : Writer, ∃ out l', out ≠ .stuck ∧
          (Body.ofProducer .incoming).aggregate
            { clock := { limit }, reader := r, writer, body := d } =
              (out, { consumed := true }, l') := by
  intro claim r d
  have sounds : .silence ∉ r.arrivals := by decide
  obtain ⟨_, loops, chunks, enough, ends⟩ := loop_ends d r { limit := 0 } sounds
  have answer : (advance .size 1 r { limit := 0 }).1 = given [97] ∧
      (advance .size 1 r { limit := 0 }).2.1 = .data (Numeral.bound64 - 3) := by
    decide +kernel
  refine ⟨sounds, ?_, chunks 9, enough, fun limit late => ?_⟩
  · have bytes : r.ahead.length = 20 := by decide
    rw [bytes] at loops
    exact (congrArg _ loops).trans (congrArg some (Prod.ext answer.1 answer.2))
  · obtain ⟨pulled, collected⟩ := ends limit late
    refine ⟨pulled 9, fun w => ?_⟩
    obtain ⟨out, l', eq, came, _⟩ := collected w
    exact ⟨out, l', came, eq⟩

end Decoder

end HttpExchange
