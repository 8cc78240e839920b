import HttpExchange.Proofs.Body.Reading
import HttpExchange.Proofs.Client.RoundTrip
import HttpExchange.Proofs.Wire.Whole

/-!
A request that was sent, and no head of a response to it: what the server has sent ends, or the
connection is reset, in front of the blank line. Only an end in order in front of a head is reported
as a connection without a response. A head that has begun is reported as a body that is cut short,
and so is every reset.
-/

namespace HttpExchange

variable {limit : Nat} {x : Bytes} {r : Reader} {tail : List Arrival}

namespace Draft

variable {d : Draft} {l l' : Link}

theorem error_sendBody {e : ClientError} (sent : d.sendBody l = (.error e, l')) :
    ∃ e', e = .requestBody e' := by
  rw [sendBody] at sent
  split at sent
  · cases sent
    exact ⟨_, rfl⟩
  · split at sent <;> cases sent
    exact ⟨_, rfl⟩

/-- A body that does not relay what its own link receives leaves that to be read. -/
theorem still_sendBody (own : d.body.producer ≠ .incoming) (sent : d.sendBody l = (.ok (), l')) :
    l.Still l' := by
  rw [sendBody, Body.take] at sent
  split at sent
  · cases sent
  · next p _ taken =>
      split at taken
      · cases taken
      · cases taken
        split at sent
        · next ran =>
            cases sent
            exact Delivery.still_run own ran
        · cases sent
        · cases sent

end Draft

namespace Client

variable {c : Client} {d : Draft} {l l₁ l' : Link} {e : ClientError} {chunks : List Bytes}

/-- The whole request is on the wire, and the response is still to be read. -/
structure Sends (c : Client) (d : Draft) (l l' : Link) : Prop where
  valid : d.spoiled = false
  through : ∃ l₁, l.send (d.head c.config) = (.ok (), l₁) ∧ d.sendBody l₁ = (.ok (), l')

theorem Sends.send_of_receive (sends : c.Sends d l l₁)
    (received : c.receive d.method l₁ = (.error e, l')) :
    c.send d l = (.error e, { c with issued := c.issued + 1 }, l') := by
  obtain ⟨valid, _, sent, delivered⟩ := sends
  have received' : ({ c with issued := c.issued + 1 } : Client).receive d.method l₁ =
      (.error e, l') := received
  rw [send, valid, if_neg Bool.false_ne_true]
  simp only [sent, delivered, received']

theorem sends_of_flows (c : Client) (whole : d.spoiled = false) (opened : l.writer.rule.Open)
    (fresh : d.body.consumed = false) (own : d.body.producer ≠ .incoming)
    (flows : d.body.producer.Flows .endless l.clock.now l chunks) :
    ∃ l', c.Sends d l l' ∧ l.Still l' ∧ l'.writer.output = l.writer.output ++
      (d.head c.config ++ d.body.framing.transfer (Delivery.filled chunks)) := by
  obtain ⟨w, sent, put⟩ := Delivery.send_open opened (d.head c.config)
  have opened' : w.rule.Open := put.rule ▸ opened
  obtain ⟨l', delivered, output⟩ :=
    Draft.sendBody_flows (l := { l with writer := w }) opened' fresh (flows.behind w)
  have still := Draft.still_sendBody own delivered
  refine ⟨l', ⟨whole, _, sent, delivered⟩, ⟨still.body, still.reader⟩, ?_⟩
  rw [output, put.output, List.append_assoc]

/-- What is told of a response whose head does not come within the limit. -/
inductive Headless (limit : Nat) (x : Bytes) (tail : List Arrival) : ClientError → Prop where
  | tooLarge (full : limit ≤ x.length) :
      Headless limit x tail (.body (.wire (.head (.tooLarge limit))))
  | closed (short : x.length < limit) (blank : Wire.Blank x) (ended : tail = []) :
      Headless limit x tail .connectionClosed
  | cut (short : x.length < limit) (begun : Wire.Blank x → tail ≠ []) :
      Headless limit x tail (.body (.wire .incomplete))

theorem Headless.isIncomplete_iff (headless : Headless limit x tail e) :
    e.isIncomplete = true ↔ x.length < limit ∧ (Wire.Blank x → tail ≠ []) := by
  cases headless with
  | tooLarge full => exact ⟨nofun, fun ⟨short, _⟩ => absurd short (Nat.not_lt_of_le full)⟩
  | closed _ blank ended => exact ⟨nofun, fun ⟨_, begun⟩ => absurd ended (begun blank)⟩
  | cut short begun => exact ⟨fun _ => ⟨short, begun⟩, fun _ => rfl⟩

theorem receive_headless (without : ¬ Wire.Begins c.config.maxHeadSize x)
    (holds : l.reader.Holds x tail) (severed : Arrival.Severed tail) (method : Method) :
    ∃ e l', c.receive method l = (.error e, l') ∧ Headless c.config.maxHeadSize x tail e := by
  have failed {e r'} (read : Wire.readHead c.config.maxHeadSize l.reader l.clock =
      (.error e, r', l.clock)) :
      c.receive method l = (.error (.body (.wire e)), { l with reader := r' }) := by
    rw [receive, Link.readHead, read]
  obtain ⟨large, cut⟩ := Wire.readHead_without without holds l.clock
  by_cases full : c.config.maxHeadSize ≤ x.length
  · obtain ⟨r', read⟩ := large full
    exact ⟨_, _, failed read, .tooLarge full⟩
  · have short := Nat.lt_of_not_le full
    by_cases blank : Wire.Blank x
    · obtain ⟨closed, reset⟩ := Wire.readHead_blank blank short holds severed l.clock
      by_cases ended : tail = []
      · obtain ⟨r', read⟩ := closed ended
        refine ⟨_, { l with reader := r' }, ?_, .closed short blank ended⟩
        rw [receive, Link.readHead, read]
      · obtain ⟨r', read⟩ := reset ended
        exact ⟨_, _, failed read, .cut short fun _ => ended⟩
    · obtain ⟨r', read⟩ := cut short severed blank
      exact ⟨_, _, failed read, .cut short fun other => absurd other blank⟩

/-- The framing of a response is not reported as cut short. -/
theorem ofResponse_ne_incomplete (head : ResponseHead) (method : Method) :
    Framing.ofResponse head method ≠ .error .incomplete := by
  intro incomplete
  rw [Framing.ofResponse] at incomplete
  split at incomplete
  · cases incomplete
  · rw [Framing.announced] at incomplete
    split at incomplete
    · cases incomplete
    · split at incomplete
      · next text _ =>
          rw [Framing.ofLength] at incomplete
          split at incomplete <;> cases incomplete
      · cases incomplete

theorem isIncomplete_receive {method : Method} (received : c.receive method l = (.error e, l'))
    (incomplete : e.isIncomplete = true) :
    ∃ l₁, l.readHead c.config.maxHeadSize = (.error .incomplete, l₁) := by
  rw [receive] at received
  split at received
  · next e₁ _ read =>
      cases received
      have same : e₁ = .incomplete := by
        simpa [ClientError.isIncomplete, BodyError.isIncomplete] using incomplete
      exact ⟨_, same ▸ read⟩
  · cases received
  · cases received
    cases incomplete
  · split at received
    · cases received
      cases incomplete
    · split at received
      · next head _ _ e₁ framed =>
          cases received
          have same : e₁ = .incomplete := by
            simpa [ClientError.isIncomplete, BodyError.isIncomplete] using incomplete
          exact absurd (same ▸ framed) (ofResponse_ne_incomplete head method)
      · cases received

/-- What fails before the head of the response is waited for is not incomplete. -/
theorem isIncomplete_send (failed : (c.send d l).1 = .error e) (incomplete : e.isIncomplete = true) :
    ∃ l₁ l', c.Sends d l l₁ ∧ l₁.readHead c.config.maxHeadSize = (.error .incomplete, l') := by
  rw [send] at failed
  split at failed
  · cases failed
    cases incomplete
  · next valid =>
      simp only at failed
      split at failed
      · next e₁ _ sent =>
          obtain ⟨_, _, _, io⟩ := Delivery.put_send sent
          obtain ⟨fault, rfl⟩ := io e₁ rfl
          cases failed
          cases incomplete
      · cases failed
      · next l₁ sent =>
          split at failed
          · next delivered =>
              obtain ⟨_, rfl⟩ := Draft.error_sendBody delivered
              cases failed
              cases incomplete
          · cases failed
          · next l₂ delivered =>
              split at failed
              · next received =>
                  cases failed
                  obtain ⟨l', read⟩ := isIncomplete_receive received incomplete
                  exact ⟨l₂, l', ⟨Bool.eq_false_iff.mpr valid, l₁, sent, delivered⟩, read⟩
              · cases failed
              · cases failed

/-- A request that fails as incomplete was sent, and the head of its response was cut short; nothing
that goes wrong before that head is waited for, or in what it says, counts as incomplete. Of the
inputs that end or are reset in front of the blank line, those that have begun a head do, and those
that are reset; where the input ends in order and has no more than blank lines, the connection was
closed without a response. -/
theorem send_headless (c : Client) (d : Draft) (l : Link) :
    (∀ e, (c.send d l).1 = .error e → (e.isIncomplete = true ↔ ∃ l₁ l', c.Sends d l l₁ ∧
      l₁.readHead c.config.maxHeadSize = (.error .incomplete, l'))) ∧
    ∀ l₁ x tail, c.Sends d l l₁ → l₁.reader.Holds x tail → Arrival.Severed tail →
      ¬ Wire.Begins c.config.maxHeadSize x →
      ∃ e l', c.send d l = (.error e, { c with issued := c.issued + 1 }, l') ∧
        l'.writer = l₁.writer ∧ Headless c.config.maxHeadSize x tail e ∧
        (e.isIncomplete = true ↔
          x.length < c.config.maxHeadSize ∧ (Wire.Blank x → tail ≠ [])) := by
  constructor
  · intro e failed
    refine ⟨isIncomplete_send failed, fun ⟨l₁, l', sends, read⟩ => ?_⟩
    have received : c.receive d.method l₁ = (.error (.body (.wire .incomplete)), l') := by
      rw [receive, read]
    rw [sends.send_of_receive received] at failed
    cases failed
    rfl
  · intro l₁ x tail sends holds severed without
    obtain ⟨e, l', received, headless⟩ := receive_headless without holds severed d.method
    refine ⟨e, l', sends.send_of_receive received, ?_, headless, headless.isIncomplete_iff⟩
    have silent := writer_receive c d.method l₁
    rwa [received] at silent

/-- A server that goes away: in front of its answer, in order and by a reset, and inside a field. -/
theorem send_headless_gone :
    let c : Client := { config := {} }
    let d : Draft := { method := .get, target := "/" }
    let part := Utf8.encode "HTTP/1.1 200 OK\r\nContent-Le"
    let link (b : Bytes) (tail : List Arrival) : Link := {
      clock := { limit := 0 }
      reader := { arrivals := [.bytes b] ++ tail, capacity := 64 }
      writer := {} }
    let reset : Arrival := .fault ⟨.connectionReset, "reset"⟩
    let answer (b : Bytes) (tail : List Arrival) (e : ClientError) : Prop :=
      ∃ l', c.send d (link b tail) = (.error e, { c with issued := 1 }, l') ∧
        l'.writer.output = d.head c.config
    answer [] [] .connectionClosed ∧ answer [] [reset] (.body (.wire .incomplete)) ∧
      answer part [] (.body (.wire .incomplete)) := by
  intro c d part link reset answer
  have gone (b : Bytes) {tail : List Arrival} (severed : Arrival.Severed tail)
      (few : b.count Bytes.lf < 2) :
      ∃ e, answer b tail e ∧ Headless c.config.maxHeadSize b tail e := by
    have lasts : Patience.endless.Lasts (link b tail).clock.now := trivial
    have flows : d.body.producer.Flows _ (link b tail).clock.now (link b tail) [] :=
      Producer.flows_known lasts _
    have own : d.body.producer ≠ .incoming := Producer.noConfusion
    obtain ⟨l₁, sends, still, output⟩ :=
      sends_of_flows c rfl WriteRule.open_default rfl own flows
    have holds : l₁.reader.Holds b tail := by
      have first := Reader.holds_segments (show 0 < 64 by decide) [b] tail
      rw [List.flatten_singleton] at first
      exact still.reader ▸ first
    obtain ⟨e, l', failed, silent, headless, _⟩ :=
      (send_headless c d (link b tail)).2 l₁ b tail sends holds severed
        (Wire.not_begins_of_count _ few)
    refine ⟨e, ⟨l', failed, ?_⟩, headless⟩
    rw [silent, output]
    exact List.append_nil _
  have severed : Arrival.Severed [reset] := .inr ⟨_, _, rfl, rfl⟩
  refine ⟨?_, ?_, ?_⟩
  · obtain ⟨e, failed, headless⟩ := gone [] (.inl rfl) (by decide)
    cases headless with
    | tooLarge full => exact absurd full (by decide)
    | closed => exact failed
    | cut _ begun => exact absurd rfl (begun Wire.blank_nil)
  · obtain ⟨e, failed, headless⟩ := gone [] severed (by decide)
    cases headless with
    | tooLarge full => exact absurd full (by decide)
    | closed _ _ ended => cases ended
    | cut => exact failed
  · obtain ⟨e, failed, headless⟩ := gone part (.inl rfl) (by decide)
    cases headless with
    | tooLarge full => exact absurd full (by decide)
    | closed _ blank _ =>
        have first : 72 ∈ part := by decide
        exact absurd (blank.mem first) (by decide)
    | cut => exact failed

/-- The server closes the connection inside the first line of its answer: no response was received,
and the error is the one of a body that is cut short. -/
theorem headless_incomplete :
    let c : Client := { config := {} }
    let d : Draft := { method := .get, target := "/" }
    let answer := Utf8.encode "HTTP/1.1 200"
    let l : Link := {
      clock := { limit := 0 }
      reader := { arrivals := [.bytes answer], capacity := 64 }
      writer := {} }
    ¬ Wire.Begins c.config.maxHeadSize answer ∧
      (c.send d l).1 = .error (.body (.wire .incomplete)) ∧
        (c.send d l).2.2.writer.output = d.head c.config ∧
        (ClientError.body (.wire .incomplete)).isIncomplete = true := by
  intro c d answer l
  refine ⟨Wire.not_begins_of_count _ (by decide), ?_, ?_, rfl⟩
  · decide +kernel
  · decide +kernel

end Client

end HttpExchange
