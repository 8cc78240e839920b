import HttpExchange.Body.Chunk
import HttpExchange.Framing
import HttpExchange.Wire.Reader

/-!
Bodies read off the wire. A decoder reads as much as one piece of the body asks for, and nothing
before it is asked. Its pieces are the chunks of the wire, cut where they exceed a bound. The body
ends in order, and then the reader may serve another message, or with one error.
-/

namespace HttpExchange

/-- Where a decoder stands in the body. -/
inductive DecoderState where
  /-- Before the size of a chunk. -/
  | size
  /-- Inside a chunk that has one byte and `more` bytes left. -/
  | data (more : Nat)
  /-- Behind the bytes of a chunk. -/
  | dataEnd
  /-- Behind the last chunk. -/
  | trailers
  /-- Inside a body of known length that has this much left. -/
  | length (left : Nat)
  /-- Inside a body that ends with the connection. -/
  | untilClose
  | done
  | failed
  deriving DecidableEq, Repr

structure Decoder where
  state : DecoderState
  /-- The most bytes that a piece has; zero counts as one. -/
  bound : Nat
  /-- Whether the end of the body was reported in order. -/
  released : Bool := false
  deriving DecidableEq, Repr

/-- A piece of a body, or its end. -/
inductive Piece where
  | data (b : Bytes)
  | ended
  deriving DecidableEq, Repr

namespace Decoder

def defaultBound : Nat := 65536

/-- The longest line, with its end, in front of or behind a chunk. -/
def maxLine : Nat := 4096

def start (framing : Framing) (bound : Nat) : Decoder :=
  { state := match framing with
      | .empty => .done
      | .length n => .length n
      | .chunked => .size
      | .untilClose => .untilClose
    bound }

def readLine (r : Reader) (c : Clock) : Outcome WireError Bytes × Reader × Clock :=
  match r.line maxLine c with
  | (.ok line, r, c) =>
    if line.getLast? = some Bytes.lf then
      let line := line.dropLast
      (.ok (if line.getLast? = some Bytes.cr then line.dropLast else line), r, c)
    else if maxLine ≤ line.length then (.error (.chunk .lineTooLong), r, c)
    else (.error .incomplete, r, c)
  | (.error e, r, c) => (.error (.ofRead e), r, c)
  | (.stuck, r, c) => (.stuck, r, c)

theorem weight_readLine {r c out r' c'} (eq : readLine r c = (out, r', c')) :
    r'.weight ≤ r.weight ∧ ∀ l, out = .ok l → r'.weight < r.weight := by
  unfold readLine at eq
  split at eq
  · next line r₁ c₁ read =>
    have facts := Reader.weight_line read
    split at eq
    · next ended =>
      cases eq
      refine ⟨facts.1, fun _ _ => facts.2 line rfl ?_⟩
      rintro rfl
      simp at ended
    · split at eq <;> cases eq <;> exact ⟨facts.1, by simp⟩
  · next read => cases eq; exact ⟨(Reader.weight_line read).1, by simp⟩
  · next read => cases eq; exact ⟨(Reader.weight_line read).1, by simp⟩

/-- Reads the next bytes of a chunk or of a body of known length that has `left` bytes left. -/
def readData (left bound : Nat) (r : Reader) (c : Clock) :
    Outcome WireError Bytes × Reader × Clock :=
  match r.exactly (min left bound) c with
  | (.ok (some b), r, c) => (.ok b, r, c)
  | (.ok none, r, c) => (.error .incomplete, r, c)
  | (.error e, r, c) => (.error (.ofRead e), r, c)
  | (.stuck, r, c) => (.stuck, r, c)

theorem weight_readData {left bound r c out r' c'}
    (eq : readData left bound r c = (out, r', c')) :
    r'.weight ≤ r.weight ∧
      (∀ b, out = .ok b → 0 < min left bound → r'.weight < r.weight) := by
  unfold readData at eq
  split at eq
  · next read =>
    cases eq
    have facts := Reader.weight_exactly read
    exact ⟨facts.1, fun _ _ pos => facts.2 _ rfl pos⟩
  all_goals
    next read =>
      cases eq
      exact ⟨(Reader.weight_exactly read).1, by simp⟩

def advance (state : DecoderState) (bound : Nat) (r : Reader) (c : Clock) :
    Outcome WireError Piece × DecoderState × Reader × Clock :=
  match state with
  | .size => match _read : readLine r c with
    | (.ok line, r', c) => match Chunk.parseSize line with
      | .error fault => (.error (.chunk fault), .size, r', c)
      | .ok 0 => advance .trailers bound r' c
      | .ok (n + 1) => advance (.data n) bound r' c
    | (.error e, r', c) => (.error e, .size, r', c)
    | (.stuck, r', c) => (.stuck, .size, r', c)
  | .data more => match readData (more + 1) bound r c with
    | (.ok b, r', c) =>
      (.ok (.data b), if more < b.length then .dataEnd else .data (more - b.length), r', c)
    | (.error e, r', c) => (.error e, .data more, r', c)
    | (.stuck, r', c) => (.stuck, .data more, r', c)
  | .dataEnd => match _read : readLine r c with
    | (.ok line, r', c) =>
      if line.isEmpty then advance .size bound r' c
      else (.error (.chunk .missingLineEnd), .dataEnd, r', c)
    | (.error e, r', c) => (.error e, .dataEnd, r', c)
    | (.stuck, r', c) => (.stuck, .dataEnd, r', c)
  | .trailers => match _read : readLine r c with
    | (.ok line, r', c) =>
      if line.isEmpty then (.ok .ended, .done, r', c) else advance .trailers bound r' c
    | (.error e, r', c) => (.error e, .trailers, r', c)
    | (.stuck, r', c) => (.stuck, .trailers, r', c)
  | .length 0 => (.ok .ended, .done, r, c)
  | .length (n + 1) => match readData (n + 1) bound r c with
    | (.ok b, r', c) => (.ok (.data b), .length (n + 1 - b.length), r', c)
    | (.error e, r', c) => (.error e, .length (n + 1), r', c)
    | (.stuck, r', c) => (.stuck, .length (n + 1), r', c)
  | .untilClose => match r.available bound c with
    | (.ok b, r', c) =>
      if b.isEmpty then (.ok .ended, .done, r', c) else (.ok (.data b), .untilClose, r', c)
    | (.error e, r', c) => (.error (.ofRead e), .untilClose, r', c)
    | (.stuck, r', c) => (.stuck, .untilClose, r', c)
  | .done => (.ok .ended, .done, r, c)
  | .failed => (.ok .ended, .failed, r, c)
termination_by r.weight
decreasing_by
  all_goals exact (weight_readLine _read).2 _ rfl

/-- The next piece of the body. After the end or an error there is only the end. -/
def next (d : Decoder) (r : Reader) (c : Clock) :
    Outcome WireError Piece × Decoder × Reader × Clock :=
  match advance d.state (max 1 d.bound) r c with
  | (.ok (.data b), state, r, c) => (.ok (.data b), { d with state }, r, c)
  | (.ok .ended, state, r, c) =>
    (.ok .ended, { d with state, released := d.released || state == .done }, r, c)
  | (.error e, _, r, c) => (.error e, { d with state := .failed }, r, c)
  | (.stuck, state, r, c) => (.stuck, { d with state }, r, c)

theorem weight_advance {state bound r c out state' r' c'} (room : 0 < bound)
    (eq : advance state bound r c = (out, state', r', c')) :
    r'.weight ≤ r.weight ∧ ∀ b, out = .ok (.data b) → r'.weight < r.weight := by
  fun_induction advance state bound r c
  case case2 read _ ih | case3 read _ _ ih | case9 read _ ih | case14 read _ ih =>
    have := (weight_readLine read).2 _ rfl
    have := ih eq
    exact ⟨by omega, fun _ _ => by omega⟩
  case case6 read | case18 read =>
    cases eq
    have facts := weight_readData read
    exact ⟨facts.1, fun _ _ => facts.2 _ rfl (by omega)⟩
  case case7 read | case8 read | case19 read | case20 read =>
    cases eq
    exact ⟨(weight_readData read).1, by simp⟩
  case case17 | case25 | case26 => cases eq; exact ⟨Nat.le_refl _, by simp⟩
  case case21 read _ | case23 read | case24 read =>
    cases eq
    exact ⟨(Reader.weight_available read).1, by simp⟩
  case case22 read some =>
    cases eq
    have facts := Reader.weight_available read
    exact ⟨facts.1, fun _ _ => facts.2 _ rfl (by simpa using some)⟩
  all_goals
    cases eq
    next read => exact ⟨(weight_readLine read).1, by simp⟩

theorem weight_next {d : Decoder} {r c out d' r' c'} (eq : d.next r c = (out, d', r', c')) :
    r'.weight ≤ r.weight ∧ ∀ b, out = .ok (.data b) → r'.weight < r.weight := by
  unfold next at eq
  split at eq <;> next step =>
    cases eq
    exact weight_advance (by omega) step

end Decoder

end HttpExchange
