import HttpExchange.Wire.Error
import HttpExchange.Wire.Reader
import HttpExchange.Wire.Writer

/-!
Heads on the wire. A head is read up to and with its blank line. Blank lines before it are skipped
but count against the limit of its size.
-/

namespace HttpExchange.Wire

/-- Whether a line without its line feed, in reverse, is blank. -/
def isBlankLine (line : Bytes) : Bool := line == [] || line == [Bytes.cr]

/-- Reads a head of which `lines` are complete and `line` has begun, both in reverse. The budget is
what the limit leaves. -/
def headOnto (limit : Nat) : (budget : Nat) → (lines line : Bytes) → Reader → Clock →
    Outcome WireError (Option Bytes) × Reader × Clock
  | 0, _, _, r, c => (.error (.head (.tooLarge limit)), r, c)
  | budget + 1, lines, line, r, c => match r.next r.capacity c with
    | (.ok (some b), r, c) =>
      if b ≠ Bytes.lf then headOnto limit budget lines (b :: line) r c
      else if !isBlankLine line then headOnto limit budget (b :: (line ++ lines)) [] r c
      else if lines.isEmpty then headOnto limit budget [] [] r c
      else (.ok (some (b :: (line ++ lines)).reverse), r, c)
    | (.ok none, r, c) =>
      (if lines.isEmpty && line.isEmpty then .ok none else .error .incomplete, r, c)
    | (.error e, r, c) => (.error (.ofRead e), r, c)
    | (.stuck, r, c) => (.stuck, r, c)

/-- Reads the next head of at most `limit` bytes; none if the input ends before one begins. -/
def readHead (limit : Nat) (r : Reader) (c : Clock) :
    Outcome WireError (Option Bytes) × Reader × Clock :=
  headOnto limit limit [] [] r c

def writeHead (head : Bytes) (w : Writer) (c : Clock) : Outcome WireError Unit × Writer × Clock :=
  match w.writeAll head c with
  | (.ok (), w, c) =>
    let (flushed, w, c) := w.flush c
    (flushed.mapError .io, w, c)
  | (.error e, w, c) => (.error (.io e), w, c)
  | (.stuck, w, c) => (.stuck, w, c)

theorem weight_headOnto {limit budget lines line r c out r' c'}
    (eq : headOnto limit budget lines line r c = (out, r', c')) :
    r'.weight ≤ r.weight ∧ ∀ head, out = .ok (some head) → r'.weight < r.weight := by
  fun_induction headOnto limit budget lines line r c with
  | case1 => cases eq; exact ⟨Nat.le_refl _, by simp⟩
  | case2 budget lines line r c b r₁ c₁ read _ ih =>
    have := (Reader.weight_next read).2 _ rfl
    have := ih eq
    exact ⟨by omega, fun _ _ => by omega⟩
  | case3 budget lines line r c b r₁ c₁ read _ _ ih =>
    have := (Reader.weight_next read).2 _ rfl
    have := ih eq
    exact ⟨by omega, fun _ _ => by omega⟩
  | case4 budget lines line r c b r₁ c₁ read _ _ _ ih =>
    have := (Reader.weight_next read).2 _ rfl
    have := ih eq
    exact ⟨by omega, fun _ _ => by omega⟩
  | case5 budget lines line r c b r₁ c₁ read =>
    cases eq
    have := Reader.weight_next read
    exact ⟨this.1, fun _ _ => this.2 _ rfl⟩
  | case6 budget lines line r c r₁ c₁ read =>
    cases eq
    refine ⟨(Reader.weight_next read).1, fun head same => ?_⟩
    split at same <;> simp at same
  | case7 budget lines line r c e r₁ c₁ read =>
    cases eq
    exact ⟨(Reader.weight_next read).1, by simp⟩
  | case8 budget lines line r c r₁ c₁ read =>
    cases eq
    exact ⟨(Reader.weight_next read).1, by simp⟩

theorem weight_readHead {limit r c out r' c'} (eq : readHead limit r c = (out, r', c')) :
    r'.weight ≤ r.weight ∧ ∀ head, out = .ok (some head) → r'.weight < r.weight :=
  weight_headOnto eq

end HttpExchange.Wire
