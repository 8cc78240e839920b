import HttpExchange.Body.Delivery
import HttpExchange.Proofs.Body.Chunked

/-!
A body on the wire under its framing, and what a decoder makes of it. Under every framing that
marks its end, a whole body is read back and ends in order; a body that is cut short is not.
-/

namespace HttpExchange

namespace Framing

/-- Chunks on the wire, without their end. -/
def frames (f : Framing) (chunks : List Bytes) : Bytes := chunks.flatMap fun b => f.frame b

/-- Chunks on the wire, with their end. -/
def transfer (f : Framing) (chunks : List Bytes) : Bytes := f.frames chunks ++ f.terminator

/-- The framing has an end of its own, and the chunks are as long as it says. -/
structure Admits (f : Framing) (chunks : List Bytes) : Prop where
  delimited : f ≠ untilClose
  size : ∀ n, f.declared? = some n → chunks.flatten.length = n

def pieces (f : Framing) (most : Nat) (chunks : List Bytes) : List Bytes :=
  match f with
  | chunked => chunks.flatMap (Bytes.cut most)
  | _ => Bytes.cut most chunks.flatten

variable {f : Framing} {chunks : List Bytes}

theorem frames_append (f : Framing) (first second : List Bytes) :
    f.frames (first ++ second) = f.frames first ++ f.frames second := List.flatMap_append

theorem frames_concat (f : Framing) (chunks : List Bytes) (b : Bytes) :
    f.frames (chunks ++ [b]) = f.frames chunks ++ f.frame b := by
  rw [frames_append, frames, frames, List.flatMap_singleton]

theorem frame_ne_nil (f : Framing) {b : Bytes} (some : b ≠ []) : f.frame b ≠ [] := by
  cases f with
  | chunked =>
      rw [frame, Chunk.frame]
      exact List.append_ne_nil_of_right_ne_nil _ (List.cons_ne_nil _ _)
  | empty | length n | untilClose => exact some

theorem frames_of_ne_chunked (plain : f ≠ chunked) : f.frames chunks = chunks.flatten := by
  cases f with
  | chunked => exact absurd rfl plain
  | empty | length n | untilClose => exact List.flatMap_id

theorem transfer_of_ne_chunked (plain : f ≠ chunked) : f.transfer chunks = chunks.flatten := by
  have none : f.terminator = [] := by
    cases f with
    | chunked => exact absurd rfl plain
    | empty | length n | untilClose => rfl
  rw [transfer, frames_of_ne_chunked plain, none, List.append_nil]

theorem transfer_chunked (chunks : List Bytes) :
    chunked.transfer chunks = chunks.flatMap Chunk.frame ++ Chunk.terminator := rfl

theorem pieces_of_ne_chunked (plain : f ≠ chunked) (most : Nat) :
    f.pieces most chunks = Bytes.cut most chunks.flatten := by
  cases f with
  | chunked => exact absurd rfl plain
  | empty | length n | untilClose => rfl

theorem flatten_pieces (f : Framing) (most : Nat) (chunks : List Bytes) :
    (f.pieces most chunks).flatten = chunks.flatten := by
  cases f with
  | empty | length n | untilClose => exact Bytes.flatten_cut most chunks.flatten
  | chunked => exact Bytes.flatten_flatMap_cut most chunks

end Framing

namespace Decoder

variable {d : Decoder} {r : Reader} {c : Clock} {x y b : Bytes} {tail : List Arrival}
  {f : Framing} {chunks : List Bytes}

theorem drain_done (holds : r.Holds y tail) (c : Clock) :
    ∃ r', ({ d with state := .done } : Decoder).drain r c =
        ⟨[], .ok (), { d with state := .done, released := true }, r', c⟩ ∧ r'.Holds y tail := by
  refine ⟨r, ?_, holds⟩
  rw [drain_eq, next_done rfl]

theorem drain_length (holds : r.Holds (b ++ y) tail) (c : Clock) :
    ∃ r', ({ d with state := .length b.length } : Decoder).drain r c =
        ⟨Bytes.cut d.bound b, .ok (), { d with state := .done, released := true }, r', c⟩ ∧
      r'.Holds y tail := by
  obtain ⟨r', counted, holds'⟩ := drain_counted (d := d) (c := c) length_countsDown holds
  refine ⟨r', ?_, holds'⟩
  have step : advance (.length 0) (max 1 d.bound) r' c = (.ok .ended, .done, r', c) := by
    rw [advance]
  rw [counted, drain_of_advance_ended step, beq_self_eq_true, Bool.or_true, Decoded.behind,
    List.append_nil]

/-- A whole body is read to its end, and what stands behind it stays unread. -/
theorem drain_spans (spans : f.Spans x chunks) (bound : Nat) (holds : r.Holds (x ++ y) tail)
    (c : Clock) :
    ∃ r', (start f bound).drain r c =
        ⟨f.pieces bound chunks, .ok (), ⟨.done, bound, true⟩, r', c⟩ ∧ r'.Holds y tail := by
  cases spans with
  | empty =>
      obtain ⟨r', read, holds'⟩ := drain_done (d := start .empty bound) holds c
      refine ⟨r', read.trans ?_, holds'⟩
      rw [Framing.pieces_of_ne_chunked Framing.noConfusion, List.flatten_nil, Bytes.cut_nil]
      rfl
  | length =>
      obtain ⟨r', read, holds'⟩ := drain_length (d := start (.length x.length) bound) holds c
      refine ⟨r', read.trans ?_, holds'⟩
      rw [Framing.pieces_of_ne_chunked Framing.noConfusion, List.flatten_singleton]
      rfl
  | chunked coding => exact drain_coding (d := start .chunked bound) coding holds

/-- A body that is cut anywhere before its end is never taken for a whole one. -/
theorem drain_spans_cut {g : Bytes} (spans : f.Spans x chunks) (bound : Nat) (part : g <+: x)
    (shorter : g.length < x.length) (holds : r.Holds g tail) (severed : Arrival.Severed tail)
    (c : Clock) :
    ((start f bound).drain r c).Fails (start f bound) .incomplete (f.pieces bound chunks) := by
  cases spans with
  | empty => exact absurd shorter (Nat.not_lt_zero _)
  | length =>
      rw [Framing.pieces_of_ne_chunked Framing.noConfusion, List.flatten_singleton]
      exact drain_counted_severed (d := start (.length x.length) bound) length_countsDown part
        shorter holds severed
  | chunked coding =>
      exact drain_cut_coding (d := start .chunked bound) coding part shorter holds severed

/-- Where a decoder ends in order, there was a whole body. -/
theorem spans_of_drain (own : f ≠ .untilClose) {bound : Nat} (holds : r.Holds x tail)
    (severed : Arrival.Severed tail) (ended : ((start f bound).drain r c).ending = .ok ()) :
    ∃ g rest chunks, x = g ++ rest ∧ f.Spans g chunks := by
  cases f with
  | untilClose => exact absurd rfl own
  | empty => exact ⟨[], x, [], rfl, .empty⟩
  | length n =>
      by_cases short : x.length < n
      · -- the body could go on from here with any bytes
        let whole := x ++ List.replicate (n - x.length) 0
        have size : whole.length = n := by
          rw [List.length_append, List.length_replicate]
          omega
        have fails := drain_spans_cut (Framing.Spans.length whole) bound (List.prefix_append _ _)
          (by omega) holds severed c
        rw [size] at fails
        cases ended.symm.trans fails.ending
      · have size : (x.take n).length = n := by
          rw [List.length_take]
          omega
        have spans := Framing.Spans.length (x.take n)
        rw [size] at spans
        exact ⟨x.take n, x.drop n, _, (List.take_append_drop n x).symm, spans⟩
  | chunked =>
      rcases drain_verdict bound holds severed c with ⟨coding, rest, same, _⟩ | ⟨_, _, fails⟩ |
        ⟨_, _, _, fails⟩
      · exact ⟨coding.wire, rest, coding.chunks, same, .chunked coding⟩
      · cases ended.symm.trans fails.ending
      · cases ended.symm.trans fails.ending

/-- What is sent of chunks is a whole body, with the same pieces. -/
theorem spans_transfer (admits : f.Admits chunks) (some : ∀ b ∈ chunks, b ≠ [])
    (small : ∀ b ∈ chunks, b.length < Numeral.bound64) :
    ∃ given, f.Spans (f.transfer chunks) given ∧
      ∀ bound, f.pieces bound given = f.pieces bound chunks := by
  cases f with
  | untilClose => exact absurd rfl admits.delimited
  | empty =>
      have none : chunks.flatten = [] := List.eq_nil_of_length_eq_zero (admits.size 0 rfl)
      rw [Framing.transfer_of_ne_chunked Framing.noConfusion, none]
      refine ⟨[], .empty, fun bound => ?_⟩
      rw [Framing.pieces_of_ne_chunked Framing.noConfusion,
        Framing.pieces_of_ne_chunked Framing.noConfusion, none, List.flatten_nil]
  | length n =>
      have size : chunks.flatten.length = n := admits.size n rfl
      rw [Framing.transfer_of_ne_chunked Framing.noConfusion]
      refine ⟨[chunks.flatten], size ▸ .length chunks.flatten, fun bound => ?_⟩
      rw [Framing.pieces_of_ne_chunked Framing.noConfusion,
        Framing.pieces_of_ne_chunked Framing.noConfusion, List.flatten_singleton]
  | chunked =>
      obtain ⟨coding, wire, same⟩ := Chunk.exists_coding some small
      rw [Framing.transfer_chunked, ← wire, ← same]
      exact ⟨coding.chunks, .chunked coding, fun _ => rfl⟩

theorem drain_transfer (admits : f.Admits chunks) (some : ∀ b ∈ chunks, b ≠ [])
    (small : ∀ b ∈ chunks, b.length < Numeral.bound64) (bound : Nat)
    (holds : r.Holds (f.transfer chunks ++ y) tail) (c : Clock) :
    ∃ r', (start f bound).drain r c =
        ⟨f.pieces bound chunks, .ok (), ⟨.done, bound, true⟩, r', c⟩ ∧ r'.Holds y tail := by
  obtain ⟨given, spans, same⟩ := spans_transfer admits some small
  rw [← same bound]
  exact drain_spans spans bound holds c

/-- A body that was sent, and cut anywhere before its end, is never taken for a whole one. -/
theorem drain_transfer_severed (admits : f.Admits chunks) (some : ∀ b ∈ chunks, b ≠ [])
    (small : ∀ b ∈ chunks, b.length < Numeral.bound64) (bound : Nat)
    (part : x <+: f.transfer chunks) (shorter : x.length < (f.transfer chunks).length)
    (holds : r.Holds x tail) (severed : Arrival.Severed tail) (c : Clock) :
    ((start f bound).drain r c).CutShort chunks.flatten := by
  obtain ⟨given, spans, same⟩ := spans_transfer admits some small
  have cut := (drain_spans_cut spans bound part shorter holds severed c).cutShort
  rwa [same bound, Framing.flatten_pieces] at cut

/-- Whole frames without an end are read as their chunks, and then as cut short. -/
theorem drain_frames_severed (some : ∀ b ∈ chunks, b ≠ [])
    (small : ∀ b ∈ chunks, b.length < Numeral.bound64) (bound : Nat)
    (holds : r.Holds (Framing.chunked.frames chunks) tail) (severed : Arrival.Severed tail)
    (c : Clock) :
    ((start .chunked bound).drain r c).pieces = chunks.flatMap (Bytes.cut bound) ∧
      ((start .chunked bound).drain r c).ending = .error .incomplete := by
  obtain ⟨parts, wire, data⟩ := Chunk.exists_parts some small
  have whole : Framing.chunked.frames chunks = Chunk.wireOf parts ++ [] := by
    rw [wire, List.append_nil]
    rfl
  rw [whole] at holds
  obtain ⟨r', read, holds'⟩ :=
    drain_parts (d := start .chunked bound) (c := c) parts holds
  have ending := drain_line_severed (d := start .chunked bound) (c := c) (.inl rfl)
    List.not_mem_nil (by decide) holds' severed
  have drained : (start .chunked bound).drain r c = _ := read
  rw [drained, data]
  refine ⟨?_, ending.ending⟩
  have none := List.prefix_nil.mp ending.pieces
  exact (congrArg (_ ++ ·) none).trans (List.append_nil _)

/-- No body goes on behind its end. Where a decoder ended in order, it ends there whatever follows,
with the same pieces; and none of the bytes before are a whole body, but give the first of these
pieces and one error. -/
theorem drain_prefixFree (own : f ≠ .untilClose) {bound k : Nat} (holds : r.Holds x tail)
    (severed : Arrival.Severed tail) (ended : ((start f bound).drain r c).ending = .ok ())
    (within : k ≤ x.length) (behind : ((start f bound).drain r c).reader.Holds (x.drop k) tail) :
    let body := (start f bound).drain r c
    (∀ (reader : Reader) (v : Bytes) (script : List Arrival) (clock : Clock),
        x.take k <+: v → reader.Holds v script →
        let again := (start f bound).drain reader clock
        again.pieces = body.pieces ∧ again.ending = .ok () ∧ again.decoder.released = true ∧
          again.reader.Holds (v.drop k) script) ∧
      ∀ j < k, ∀ (reader : Reader) (script : List Arrival) (clock : Clock),
        reader.Holds (x.take j) script → Arrival.Severed script →
        let cut := (start f bound).drain reader clock
        cut.pieces <+: body.pieces ∧ cut.ending = .error .incomplete ∧
          cut.decoder.released = false ∧
          ∀ r c, cut.decoder.next r c = (.ok .ended, cut.decoder, r, c) := by
  intro body
  obtain ⟨g, rest, chunks, rfl, spans⟩ := spans_of_drain own holds severed ended
  obtain ⟨r', read, holds'⟩ := drain_spans spans bound holds c
  have same : body = _ := read
  rw [read] at behind
  have length : g.length = k := Bytes.length_of_drop within (holds'.unique behind)
  rw [List.take_left' length]
  constructor
  · rintro reader v script clock ⟨more, rfl⟩ whole again
    obtain ⟨r'', read', holds''⟩ := drain_spans spans bound whole clock
    have same' : again = _ := read'
    rw [same, same', List.drop_left' length]
    exact ⟨rfl, rfl, rfl, holds''⟩
  · intro j early reader script clock some severed' cut
    rw [List.take_append_of_le_length (by omega)] at some
    have shorter : (g.take j).length < g.length := by
      rw [List.length_take]
      omega
    have fails := drain_spans_cut spans bound (List.take_prefix j g) shorter some severed' clock
    refine ⟨?_, fails.ending, by rw [fails.decoder]; rfl, next_fails fails⟩
    rw [same]
    exact fails.pieces

/-- Three bytes in a chunk, read in two pieces: no beginning is whole, and a byte behind does not
matter. -/
theorem drain_prefixFree_chunk :
    let sent := Framing.chunked.transfer [[1, 2, 3]]
    let body := (start .chunked 2).drain { arrivals := [.bytes (sent ++ [9])], capacity := 1 }
      { limit := 0 }
    let again := (start .chunked 2).drain
      { arrivals := [.bytes sent, .bytes [8, 8]], capacity := 5 } { limit := 1 }
    body.pieces = [[1, 2], [3]] ∧ body.ending = .ok () ∧ body.reader.Holds [9] [] ∧
      again.pieces = [[1, 2], [3]] ∧ again.ending = .ok () ∧ again.reader.Holds [8, 8] [] ∧
      ∀ j < sent.length,
        let cut := (start .chunked 2).drain { arrivals := [.bytes (sent.take j)], capacity := 1 }
          { limit := 0 }
        cut.pieces <+: [[1, 2], [3]] ∧ cut.ending = .error .incomplete ∧
          cut.decoder.released = false := by
  intro sent body again
  have admits : Framing.chunked.Admits [[1, 2, 3]] := ⟨Framing.noConfusion, nofun⟩
  have holds : ({ arrivals := [.bytes (sent ++ [9])], capacity := 1 } : Reader).Holds
      (sent ++ [9]) [] := by
    simpa using Reader.holds_segments Nat.one_pos [sent ++ [9]] []
  obtain ⟨r', read, left⟩ := drain_transfer admits (by simp) (by decide) 2 holds { limit := 0 }
  have pieces : Framing.chunked.pieces 2 [[1, 2, 3]] = [[1, 2], [3]] := by
    simp [Framing.pieces, Bytes.cut]
  rw [pieces] at read
  have same : body = _ := read
  have ended : body.ending = .ok () := by rw [same]
  have within : sent.length ≤ (sent ++ [9]).length := by simp
  have behind : body.reader.Holds ((sent ++ [9]).drop sent.length) [] := by
    rwa [same, List.drop_left]
  have left : body.reader.Holds [9] [] := by rwa [List.drop_left] at behind
  obtain ⟨stable, cut⟩ :=
    drain_prefixFree Framing.noConfusion holds (.inl rfl) ended within behind
  have given : body.pieces = [[1, 2], [3]] := by rw [same]
  have other : ({ arrivals := [.bytes sent, .bytes [8, 8]], capacity := 5 } : Reader).Holds
      (sent ++ [8, 8]) [] := by
    simpa using Reader.holds_segments (show 0 < 5 by decide) [sent, [8, 8]] []
  have more := stable _ (sent ++ [8, 8]) [] { limit := 1 } (by simp) other
  rw [List.drop_left] at more
  refine ⟨given, ended, left, more.1.trans given, more.2.1, more.2.2.2, fun j early => ?_⟩
  have some : ({ arrivals := [.bytes (sent.take j)], capacity := 1 } : Reader).Holds
      ((sent ++ [9]).take j) [] := by
    rw [List.take_append_of_le_length (Nat.le_of_lt early)]
    simpa using Reader.holds_segments Nat.one_pos [sent.take j] []
  have short := cut j early _ [] { limit := 0 } some (.inl rfl)
  exact ⟨given ▸ short.1, short.2.1, short.2.2.1⟩

end Decoder

end HttpExchange
