import HttpExchange.Proofs.Body.Stopping

/-!
The life of a body. However often a decoder is asked, it answers with chunks, then with at most one
error, and then only with the end. Where the end comes without an error the whole body was given, and
the reader is handed back once, right behind it. Behind an error it never is.
-/

namespace HttpExchange

namespace Decoder

structure Pulled where
  answers : List (Outcome WireError Piece)
  /-- Readers that were handed back, in order. -/
  returned : List Reader
  decoder : Decoder
  reader : Reader
  clock : Clock

/-- One answer, and the reader if this answer is the one that hands it back: the first that reports
the end in order. -/
def Pulled.behind (out : Outcome WireError Piece) (d d' : Decoder) (r : Reader) (p : Pulled) :
    Pulled :=
  { p with
    answers := out :: p.answers
    returned := if !d.released && d'.released then r :: p.returned else p.returned }

def pulls (d : Decoder) : Nat → Reader → Clock → Pulled
  | 0, r, c => ⟨[], [], d, r, c⟩
  | n + 1, r, c => match d.next r c with
    | (out, d', r', c') => (pulls d' n r' c').behind out d d' r'

def given (b : Bytes) : Outcome WireError Piece := .ok (.data b)

def noMore : Outcome WireError Piece := .ok .ended

structure Going (f : Framing) (r : Reader) (chunks : List Bytes) (p : Pulled) : Prop where
  answers : p.answers = chunks.map given
  returned : p.returned = []
  place : ∃ x, r.Passes x p.reader ∧ Carries f x chunks.flatten p.decoder.state

structure Ended (f : Framing) (r : Reader) (chunks : List Bytes) (p : Pulled) : Prop where
  answers : ∃ k, p.answers = chunks.map given ++ noMore :: List.replicate k noMore
  state : p.decoder.state = .done
  returned : p.returned = [p.reader]
  place : ∃ x, r.Passes x p.reader ∧ Whole p.reader f x chunks.flatten

/-- Chunks were given, and then one error, which has one cause. -/
structure Failed (f : Framing) (r : Reader) (chunks : List Bytes) (e : WireError) (p : Pulled) :
    Prop where
  answers : ∃ k, p.answers = chunks.map given ++ .error e :: List.replicate k noMore
  state : p.decoder.state = .failed
  returned : p.returned = []
  stopped : ∃ x r₁ state cause, r.Passes x r₁ ∧ Carries f x chunks.flatten state ∧
    (∀ other, Stops state r₁ p.reader other ↔ other = cause) ∧ e = cause.error ∧
    (e = .incomplete ↔ cause = .ended ∨ ∃ fault, cause = .failed fault ∧
      fault.kind ∈ [.unexpectedEof, .connectionReset, .connectionAborted, .brokenPipe])

/-- What has become of a body that gave these chunks. -/
def Fate (f : Framing) (r : Reader) (chunks : List Bytes) (p : Pulled) : Prop :=
  Going f r chunks p ∨ Ended f r chunks p ∨ ∃ e, Failed f r chunks e p

variable {f : Framing} {x : Bytes} {chunks : List Bytes} {d d' : Decoder} {bound n : Nat}
  {r r₀ r₁ r' : Reader} {c c' : Clock} {out : Outcome WireError Piece}

theorem pulls_succ (read : d.next r c = (out, d', r', c')) (n : Nat) :
    d.pulls (n + 1) r c = (d'.pulls n r' c').behind out d d' r' := by
  rw [pulls, read]

theorem length_pulls (d : Decoder) (n : Nat) (r : Reader) (c : Clock) :
    (d.pulls n r c).answers.length = n := by
  induction n generalizing d r c with
  | zero => rfl
  | succ n ih =>
      rcases read : d.next r c with ⟨out, d', r', c'⟩
      rw [pulls_succ read]
      exact congrArg (· + 1) (ih d' r' c')

theorem pulls_done (done : d.state = .done) (released : d.released = true) (n : Nat) (r : Reader)
    (c : Clock) : d.pulls n r c = ⟨List.replicate n noMore, [], d, r, c⟩ := by
  induction n with
  | zero => rfl
  | succ n ih =>
      have same : { d with released := true } = d := by rw [← released]
      rw [pulls_succ (next_done done r c), same, ih, Pulled.behind, released]
      rfl

theorem pulls_failed (failed : d.state = .failed) (n : Nat) (r : Reader) (c : Clock) :
    d.pulls n r c = ⟨List.replicate n noMore, [], d, r, c⟩ := by
  induction n with
  | zero => rfl
  | succ n ih =>
      rw [pulls_succ (next_failed failed r c), ih, Pulled.behind, Bool.not_and_self]
      rfl

/-- Pulls on a decoder that stands in a body, behind chunks that were given before. -/
theorem pulls_fate (before : List Bytes) (fresh : d.released = false) (passed : r₀.Passes x r)
    (carries : Carries f x before.flatten d.state) (prompt : r.Prompt) (n : Nat) (c : Clock) :
    ∃ chunks, (∀ b ∈ chunks, 1 ≤ b.length ∧ b.length ≤ max 1 d.bound) ∧
      Fate f r₀ (before ++ chunks)
        { d.pulls n r c with answers := before.map given ++ (d.pulls n r c).answers } := by
  induction n generalizing d r c x before with
  | zero =>
      refine ⟨[], List.forall_mem_nil _, .inl ⟨?_, rfl, x, passed, ?_⟩⟩
      · rw [List.append_nil]
        exact List.append_nil _
      · rwa [List.append_nil]
  | succ n ih =>
      rcases step : advance d.state (max 1 d.bound) r c with ⟨answer, state, r', c'⟩
      have reaches := advance_reaches (by omega) carries step
      cases reaches with
      | @data more b _ passes carries some fits =>
          have read : d.next r c = (given b, { d with state }, r', c') := by
            rw [next, step]
            rfl
          have content : before.flatten ++ b = (before ++ [b]).flatten := by
            rw [List.flatten_append, List.flatten_singleton]
          rw [content] at carries
          obtain ⟨chunks, each, fate⟩ :=
            ih (d := { d with state }) (before ++ [b]) fresh (passed.trans passes) carries
              (passes.prompt prompt) c'
          have pos := List.length_pos_iff.mpr some
          refine ⟨b :: chunks, List.forall_mem_cons.mpr ⟨⟨pos, fits⟩, each⟩, ?_⟩
          rw [pulls_succ read, Pulled.behind]
          simpa only [fresh, Bool.not_false, Bool.and_false, Bool.false_eq_true, if_false,
            List.map_append, List.map_cons, List.map_nil, List.append_assoc, List.cons_append,
            List.nil_append] using fate
      | ended passes whole =>
          have read : d.next r c = (noMore, { d with state := .done, released := true }, r', c') := by
            rw [next, step, fresh]
            rfl
          refine ⟨[], List.forall_mem_nil _, .inr (.inl ?_)⟩
          rw [pulls_succ read, pulls_done rfl rfl, Pulled.behind, fresh, List.append_nil]
          exact ⟨⟨n, rfl⟩, rfl, rfl, _, passed.trans passes, whole⟩
      | @stopped more _ r₁ cause passes carries stops =>
          have read : d.next r c = (.error cause.error, { d with state := .failed }, r', c') := by
            rw [next, step]
          refine ⟨[], List.forall_mem_nil _, .inr (.inr ⟨cause.error, ?_⟩)⟩
          rw [pulls_succ read, pulls_failed rfl, Pulled.behind, Bool.not_and_self, List.append_nil]
          have only (other : Cause) : Stops state r₁ r' other ↔ other = cause :=
            ⟨fun again => again.unique stops, fun same => same ▸ stops⟩
          exact ⟨⟨n, rfl⟩, rfl, rfl, _, r₁, state, cause, passed.trans passes, carries, only, rfl,
            cause.error_eq_incomplete⟩
      | stuck waits => exact absurd waits prompt

/-- However often a body is pulled on an input without waits, each pull is answered. The answers are
chunks, none of them empty or longer than the bound, then at most one error, and then only the end.
The chunks are what the framing delimits in front of the place where the decoder stands. Behind an
end without an error the decoder is done and has handed its reader back once, right behind the whole
body. Behind an error it has failed and hands back nothing, and the error has one cause: it says that
the body is incomplete if the input ended inside it, or if the peer has gone away. -/
theorem pulls_live (f : Framing) (bound n : Nat) (r : Reader) (prompt : r.Prompt) (c : Clock) :
    let p := (start f bound).pulls n r c
    p.answers.length = n ∧
      ∃ chunks, (∀ b ∈ chunks, 1 ≤ b.length ∧ b.length ≤ max 1 bound) ∧ Fate f r chunks p :=
  ⟨length_pulls _ n r c, pulls_fate [] rfl (.refl r) (.start f bound) prompt n c⟩

/-- A chunk that comes in parts and longer than the bound, an interruption, and a line of which the
end never comes: two pieces, one error, and nothing more. -/
theorem pulls_live_cut :
    let r : Reader :=
      { arrivals := [.bytes [51, 13, 10, 97], .fault ⟨.interrupted, "again"⟩,
          .bytes [98, 99, 13, 10, 50]], capacity := 4 }
    let p := (start .chunked 2).pulls 4 r { limit := 0 }
    r.Prompt ∧ p.answers = [given [97, 98], given [99], .error .incomplete, noMore] ∧
      Failed .chunked r [[97, 98], [99]] .incomplete p := by
  intro r p
  have prompt : r.Prompt := by simp [r, Reader.Prompt, Reader.signals, Arrival.signals]
  have answers : p.answers = [given [97, 98], given [99], .error .incomplete, noMore] := by
    decide +kernel
  obtain ⟨_, chunks, _, going | ended | ⟨e, failed⟩⟩ :=
    pulls_live .chunked 2 4 r prompt { limit := 0 }
  · have all := answers.symm.trans going.answers
    rcases chunks with _ | ⟨a, _ | ⟨b, _ | ⟨b', rest⟩⟩⟩ <;> simp [given] at all
  · obtain ⟨k, all⟩ := ended.answers
    have all := answers.symm.trans all
    rcases chunks with _ | ⟨a, _ | ⟨b, _ | ⟨b', rest⟩⟩⟩ <;> simp [given, noMore] at all
  · obtain ⟨k, all⟩ := failed.answers
    have all := answers.symm.trans all
    rcases chunks with _ | ⟨a, _ | ⟨b, _ | ⟨b', rest⟩⟩⟩ <;> simp [given, noMore] at all
    obtain ⟨rfl, rfl, rfl, _⟩ := all
    exact ⟨prompt, answers, failed⟩

end Decoder

end HttpExchange
