import HttpExchange.Body.Content
import HttpExchange.Proofs.Body.Flow

/-!
Bodies under the framing that they are sent with. What the wire shows of a body is a beginning of
one that its framing admits; a body that flows is admitted, and is read back in the pieces into
which its chunks are cut.
-/

namespace HttpExchange

open Delivery (filled)

theorem Body.small_of_fits {body : Body} {l : Link} (fits : body.producer.Fits l) :
    ∀ b, body.content = .known b → b.length < Numeral.bound64 := by
  intro b known
  rw [Body.producer, known] at fits
  exact Producer.length_of_fits_known fits

theorem Body.plain_or_stream (body : Body) :
    (∃ b, body.producer = .known b ∧
        body.framing = if b.isEmpty then .empty else .length b.length) ∨
      body.framing = .chunked := by
  obtain ⟨content, consumed⟩ := body
  cases content with
  | empty => exact .inl ⟨[], rfl, rfl⟩
  | known b => exact .inl ⟨b, rfl, rfl⟩
  | stream p => exact .inr rfl

theorem Framing.admits_chunked (chunks : List Bytes) : Framing.chunked.Admits chunks :=
  ⟨Framing.noConfusion, nofun⟩

theorem filled_known (b : Bytes) :
    filled (if b.isEmpty then [] else [b]) = if b.isEmpty then [] else [b] := by
  cases b with
  | nil => rfl
  | cons first more => rfl

theorem flatten_known (b : Bytes) : (if b.isEmpty then [] else [b]).flatten = b := by
  cases b with
  | nil => rfl
  | cons first more => exact List.flatten_singleton

theorem Framing.plain_known (b : Bytes) :
    (if b.isEmpty then Framing.empty else .length b.length) ≠ .chunked := by
  split <;> exact Framing.noConfusion

theorem Framing.admits_known (b : Bytes) :
    (if b.isEmpty then Framing.empty else .length b.length).Admits
      (filled (if b.isEmpty then [] else [b])) := by
  rw [filled_known]
  refine ⟨by split <;> exact Framing.noConfusion, ?_⟩
  intro n declared
  rw [flatten_known]
  cases b with
  | nil => exact Option.some.inj declared
  | cons first more => exact Option.some.inj declared

/-- What the wire shows of a body is a beginning of a body that its framing admits, and goes to the
end of that one only if the producer has come to its own end. -/
theorem Body.admitted_of_shows {body : Body} {l : Link} {last : Nat} {pulled : List Bytes}
    {wire : Bytes}
    (shows : Delivery.Shows ⟨last, { framing := body.framing }, body.producer, l⟩ pulled wire) :
    ∃ given, body.producer.Supplies l given ∧ body.framing.Admits (filled given) ∧
      wire <+: body.framing.transfer (filled given) ∧
      ((body.framing.transfer (filled given)).length ≤ wire.length →
        body.producer.Completes l given) := by
  obtain ⟨supplies, beginning⟩ := shows
  rcases body.plain_or_stream with ⟨b, producer, framing⟩ | framing
  · rw [producer] at supplies ⊢
    rw [framing] at beginning ⊢
    have completes := Producer.completes_known b l
    refine ⟨_, completes.supplies, Framing.admits_known b, ?_, fun _ => completes⟩
    -- without sizes the frames and the end are no more than the bytes
    have plain := Framing.plain_known b
    have bytes : wire <+: pulled.flatten := by
      rcases beginning with part | ⟨_, part⟩
      · rwa [Framing.frames_of_ne_chunked plain, Delivery.flatten_filled] at part
      · rwa [Framing.transfer_of_ne_chunked plain, Delivery.flatten_filled] at part
    rw [Framing.transfer_of_ne_chunked plain, Delivery.flatten_filled]
    exact bytes.trans (Bytes.flatten_prefix (Producer.supplies_known supplies))
  · rw [framing] at beginning ⊢
    refine ⟨pulled, supplies, Framing.admits_chunked _, ?_, ?_⟩
    · rcases beginning with part | ⟨_, part⟩
      · exact part.trans (List.prefix_append _ _)
      · exact part
    · intro reaches
      rcases beginning with part | ⟨completes, _⟩
      · have shorter := part.length_le
        have ending : 0 < Framing.chunked.terminator.length := by
          rw [Framing.terminator, Chunk.terminator, List.length_append]
          exact Nat.lt_add_left _ (by decide)
        rw [Framing.transfer, List.length_append] at reaches
        have none : Delivery.pending { framing := .chunked } = [] := rfl
        simp only [none, List.nil_append] at shorter
        omega
      · exact completes

theorem Body.admits_of_completes {body : Body} {l : Link} {chunks : List Bytes}
    (completes : body.producer.Completes l chunks) : body.framing.Admits (filled chunks) := by
  rcases body.plain_or_stream with ⟨b, producer, framing⟩ | framing
  · rw [producer] at completes
    rw [framing, Producer.eq_of_completes_known completes]
    exact Framing.admits_known b
  · rw [framing]
    exact Framing.admits_chunked _

theorem Body.admits_of_flows {body : Body} {patience : Patience} {last : Nat} {l : Link}
    {chunks : List Bytes} (flows : body.producer.Flows patience last l chunks) :
    body.framing.Admits (filled chunks) := admits_of_completes flows.completes

theorem Body.size_of_flows {body : Body} {patience : Patience} {last : Nat} {l : Link}
    {chunks : List Bytes} (flows : body.producer.Flows patience last l chunks) :
    ∀ n, body.framing.declared? = some n → chunks.flatten.length = n := by
  have size := (admits_of_flows flows).size
  rwa [Delivery.flatten_filled] at size

theorem Body.pieces_of_flows {body : Body} {patience : Patience} {last : Nat} {l : Link}
    {chunks : List Bytes} (flows : body.producer.Flows patience last l chunks) (bound : Nat) :
    body.framing.pieces bound (filled chunks) = (filled chunks).flatMap (Bytes.cut bound) := by
  rcases body.plain_or_stream with ⟨b, producer, framing⟩ | framing
  · rw [producer] at flows
    rw [framing, Producer.eq_of_completes_known flows.completes, filled_known,
      Framing.pieces_of_ne_chunked (Framing.plain_known b), flatten_known]
    cases b with
    | nil => exact Bytes.cut_nil bound
    | cons first more => exact (List.flatMap_singleton _ _).symm
  · rw [framing]
    rfl

/-- A body that flows is read back in the pieces into which its chunks are cut. -/
theorem Body.drain_of_flows {body : Body} {patience : Patience} {last : Nat} {l : Link}
    {chunks : List Bytes} (flows : body.producer.Flows patience last l chunks)
    (fits : body.producer.Fits l) (bound : Nat) {reader : Reader} {rest : Bytes}
    {tail : List Arrival}
    (holds : reader.Holds (body.framing.transfer (filled chunks) ++ rest) tail) (c : Clock) :
    ∃ reader', (Decoder.start body.framing bound).drain reader c =
        ⟨(filled chunks).flatMap (Bytes.cut bound), .ok (), ⟨.done, bound, true⟩, reader', c⟩ ∧
      reader'.Holds rest tail := by
  have some : ∀ b ∈ filled chunks, b ≠ [] := fun b member => Delivery.mem_filled member
  have small : ∀ b ∈ filled chunks, b.length < Numeral.bound64 := by
    intro b member
    exact fits chunks flows.completes.supplies b (List.mem_filter.mp member).1
  have drained := Decoder.drain_transfer (admits_of_flows flows) some small bound holds c
  rwa [pieces_of_flows flows] at drained

/-- Decoding undoes encoding. What a delivery in chunks has written behind its head is read back to
the end and no further: each chunk that has bytes, in its order, in pieces as long as they may be. -/
theorem Delivery.drain_run {head : Option Bytes} {permit : Bool} {patience : Patience}
    {p : Producer} {d' : Delivery} {l l' : Link} {count : Nat}
    (eq : ({ framing := .chunked, head, permit } : Delivery).run patience p l =
      (.ok count, d', l')) :
    ∃ chunks w, p.Completes l chunks ∧ (∀ steps, p = .script steps → chunks = Yield.offered steps) ∧
      l'.writer.output = l.writer.output ++ (head.getD [] ++ w) ∧
      ((∀ b ∈ chunks, b.length < Numeral.bound64) →
        ∀ (bound : Nat) (reader : Reader) (rest : Bytes) (tail : List Arrival) (c : Clock),
          reader.Holds (w ++ rest) tail →
          ∃ reader', (Decoder.start .chunked bound).drain reader c =
              ⟨(filled chunks).flatMap (Bytes.cut bound), .ok (), ⟨.done, bound, true⟩, reader', c⟩ ∧
            reader'.Holds rest tail) := by
  let d : Delivery := { framing := .chunked, head, permit }
  rcases started : d.start patience p l with ⟨out, d₁, l₁⟩
  rw [Delivery.run, started] at eq
  cases eq
  cases verdict_of_start started with
  | finished chunks completes _ _ _ output =>
      refine ⟨chunks, Framing.chunked.transfer (filled chunks), completes, ?_, output, ?_⟩
      · rintro steps rfl
        exact (Producer.completes_script completes).1
      · intro small bound reader rest tail c holds
        have some : ∀ b ∈ filled chunks, b ≠ [] := fun b member => mem_filled member
        have small' : ∀ b ∈ filled chunks, b.length < Numeral.bound64 := by
          intro b member
          exact small b (List.mem_filter.mp member).1
        exact Decoder.drain_transfer (Framing.admits_chunked _) some small' bound holds c
  | broken _ _ _ _ cause => rcases cause with stuck | ⟨_, failed⟩ <;> contradiction

/-- A chunk that looks like the end of a body is a chunk, and an empty one is none. -/
theorem Delivery.drain_run_terminator :
    let l : Link :=
      { clock := { limit := 0 }, reader := { arrivals := [], capacity := 1 }, writer := {} }
    let chunks := [Chunk.terminator, [], [7]]
    ∃ d' l' reader', ({ framing := .chunked } : Delivery).run .endless
        (.script (chunks.map .chunk)) l = (.ok 2, d', l') ∧
      (Decoder.start .chunked 4).drain
          { arrivals := [.bytes (l'.writer.output ++ [9])], capacity := 1 } l.clock =
        ⟨[[0x30, 0x0D, 0x0A, 0x0D], [0x0A], [7]], .ok (), ⟨.done, 4, true⟩, reader', l.clock⟩ ∧
      reader'.Holds [9] [] := by
  intro l chunks
  have opened : l.writer.rule.Open := WriteRule.open_default
  have lasts : Patience.endless.Lasts l.clock.now := trivial
  have prompt : ∀ step ∈ chunks.map Yield.chunk, step.isPrompt = true := by decide
  have flows := Producer.flows_script (l := l) lasts prompt
  obtain ⟨d', l', ran, _⟩ := run_flows (f := .chunked) opened flows nofun
  obtain ⟨given, w, _, offered, output, reads⟩ := drain_run ran
  have same : given = chunks := offered _ rfl
  subst same
  have holds := Reader.holds_segments Nat.one_pos [l'.writer.output ++ [9]] []
  rw [List.flatten_singleton] at holds
  nth_rewrite 2 [output] at holds
  obtain ⟨reader', read, left⟩ := reads (by decide +kernel) 4 _ [9] [] l.clock holds
  have two : (filled (Yield.offered (chunks.map .chunk))).length = 2 := by decide +kernel
  rw [two] at ran
  refine ⟨d', l', reader', ran, read.trans ?_, left⟩
  have terminator : Chunk.terminator = [0x30, 0x0D, 0x0A, 0x0D, 0x0A] := by decide +kernel
  simp [chunks, filled, Bytes.cut, terminator]

end HttpExchange
