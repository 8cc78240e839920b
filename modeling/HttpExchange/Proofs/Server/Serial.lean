import HttpExchange.Proofs.Body.Remainder
import HttpExchange.Proofs.Server.Likeness
import HttpExchange.Proofs.Wire.Broken
import HttpExchange.Proofs.Wire.Whole

/-!
Exchanges one after another. On a connection that is kept alive each request is answered as it is
answered alone, and behind it the connection is as good as a fresh one: what is left in the buffer,
blank lines between the requests and bodies without bytes make no difference.
-/

namespace HttpExchange

variable {ω : Type}

theorem Framing.Spans.of_empty {x : Bytes} {chunks : List Bytes} (spans : Spans .empty x chunks) :
    x = [] := by
  cases spans
  rfl

theorem Wire.IsHead.ne_nil {head : Bytes} (isHead : IsHead head) : head ≠ [] := by
  obtain ⟨lines, ending, _, _, blank, rfl⟩ := isHead
  exact List.append_ne_nil_of_right_ne_nil _ blank.ne_nil

def Counters.served (n : Nat) : Counters := { issued := n, completed := n }

theorem Counters.behind_served (c : Counters) (n : Nat) :
    (c.behind (served 1)).behind (served n) = c.behind (served (n + 1)) := by
  simp only [behind, served, Nat.add_assoc, Nat.add_comm 1]

/-- The writers are one, or each takes all that is written to it. -/
def Writer.AsGood (w w' : Writer) : Prop := w' = w ∨ w.rule.Open ∧ w'.rule.Open

/-- From these outputs on either writer took the same bytes. -/
structure Writer.Parallel (before before' : Bytes) (w w' : Writer) : Prop where
  asGood : w' = w ∧ before' = before ∨ w.rule.Open ∧ w'.rule.Open
  output : ∃ wire, w.output = before ++ wire ∧ w'.output = before' ++ wire

namespace Writer

variable {w w' w₁ w₂ : Writer} {before before' : Bytes}

theorem AsGood.refl (w : Writer) : w.AsGood w := .inl rfl

theorem AsGood.symm (asGood : w.AsGood w') : w'.AsGood w :=
  asGood.imp Eq.symm fun ⟨one, other⟩ => ⟨other, one⟩

theorem AsGood.trans (first : w.AsGood w₁) (second : w₁.AsGood w₂) : w.AsGood w₂ := by
  rcases first with rfl | ⟨one, other⟩
  · exact second
  · rcases second with rfl | ⟨_, last⟩
    · exact .inr ⟨one, other⟩
    · exact .inr ⟨one, last⟩

theorem AsGood.parallel (asGood : w.AsGood w') : Parallel w.output w'.output w w' :=
  ⟨asGood.imp_left fun same => ⟨same, congrArg output same⟩,
    [], (List.append_nil _).symm, (List.append_nil _).symm⟩

theorem Parallel.toAsGood (parallel : Parallel before before' w w') : w.AsGood w' :=
  parallel.asGood.imp_left And.left

theorem Parallel.output_eq (parallel : Parallel before before' w w') {wire : Bytes}
    (output : w.output = before ++ wire) : w'.output = before' ++ wire := by
  obtain ⟨_, one, other⟩ := parallel.output
  rwa [List.append_cancel_left (output.symm.trans one)]

theorem Parallel.wrote {part : Bytes} (parallel : Parallel before before' w w')
    (wrote : Wrote w w₁ part) (wrote' : Wrote w' w₂ part) (asGood : w' = w → w₂ = w₁) :
    Parallel before before' w₁ w₂ := by
  refine ⟨?_, ?_⟩
  · rcases parallel.asGood with ⟨same, whole⟩ | ⟨opened, opened'⟩
    · exact .inl ⟨asGood same, whole⟩
    · rw [← wrote.rule] at opened
      rw [← wrote'.rule] at opened'
      exact .inr ⟨opened, opened'⟩
  · obtain ⟨wire, one, other⟩ := parallel.output
    refine ⟨wire ++ part, ?_, ?_⟩
    · rw [wrote.output, one, List.append_assoc]
    · rw [wrote'.output, other, List.append_assoc]

theorem Parallel.note {e : WireEvent} (silent : bytesOf [e] = [])
    (parallel : Parallel before before' w w') : Parallel before before' (w.note e) (w'.note e) := by
  have quiet : ∀ w : Writer, (w.note e).output = w.output := fun w => (kept_note w silent).output
  refine ⟨parallel.asGood.imp_left fun ⟨same, whole⟩ => ⟨congrArg (Writer.note e) same, whole⟩, ?_⟩
  rw [quiet, quiet]
  exact parallel.output

theorem likeness_parallel (before before' : Bytes) : Likeness (Parallel before before') := by
  refine ⟨?_, ?_, ?_, ?_⟩
  · intro w w' w₁ c c' b out parallel eq
    rcases parallel.asGood with ⟨rfl, _⟩ | ⟨opened, opened'⟩
    · obtain ⟨part, _, wrote, _⟩ := wrote_writeAll eq
      exact ⟨w₁, eq, parallel.wrote wrote wrote fun _ => rfl⟩
    · obtain ⟨_, written, wrote⟩ := writeAll_open opened b c
      obtain ⟨w₂, written', wrote'⟩ := writeAll_open opened' b c
      cases written.symm.trans eq
      refine ⟨w₂, written', parallel.wrote wrote wrote' fun same => ?_⟩
      subst same
      exact congrArg (·.2.1) (written'.symm.trans written)
  · intro w w' w₁ c c' out parallel eq
    rcases parallel.asGood with ⟨rfl, _⟩ | ⟨opened, opened'⟩
    · exact ⟨w₁, eq, parallel.wrote (wrote_flush eq) (wrote_flush eq) fun _ => rfl⟩
    · rw [flush_open opened] at eq
      cases eq
      exact ⟨_, flush_open opened' c, parallel.note rfl⟩
  · intro w w' parallel
    exact parallel.note rfl
  · intro w w' parallel
    exact parallel.note rfl

end Writer

namespace Server

variable {server : Server ω} {s s₁ : Session ω} {m : Message} {y : Bytes} {tail : List Arrival}

theorem closes_of_keepAlive (keeps : server.config.keepAlive = true) {head : RequestHead}
    (stays : head.wantsClose = false) : server.closes head = false := by
  rw [closes, keeps, stays]
  rfl

theorem exchange_proceed {head : RequestHead} {framing : Framing} {x : Exchange}
    (eq : server.exchange head framing x s = (.proceed, s₁)) :
    s₁.counters = s.counters.complete := by
  unfold exchange settle at eq
  split at eq
  · cases eq
  · split at eq
    · cases eq
    · cases eq
    · split at eq
      · cases eq
      · cases eq
        rfl

theorem exchange_finished {head : RequestHead} {framing : Framing} {x : Exchange}
    (eq : server.exchange head framing x s = (.finished (.ok ()), s₁)) :
    server.closes head = true ∨ isLeftOver framing s₁.link = true := by
  unfold exchange settle at eq
  split at eq
  · cases eq
  · split at eq
    · cases eq
    · cases eq
    · next link _ =>
        split at eq
        · next ends =>
            cases eq
            exact (Bool.or_eq_true _ _).mp ends
        · cases eq

/-- An exchange that keeps the connection, and leaves no body unread, does not end it in order. -/
theorem exchange_not_finished {head : RequestHead} {framing : Framing} {x : Exchange}
    (keeps : server.config.keepAlive = true) (stays : head.wantsClose = false)
    (read : framing = .empty ∨ s₁.link.body.released = true) :
    server.exchange head framing x s ≠ (.finished (.ok ()), s₁) := by
  intro answered
  rcases exchange_finished answered with closes | leftOver
  · rw [closes_of_keepAlive keeps stays] at closes
    cases closes
  · rw [isLeftOver] at leftOver
    rcases read with empty | released
    · rw [empty] at leftOver
      cases leftOver
    · rw [released, Bool.not_true, Bool.and_false] at leftOver
      cases leftOver

/-- Serves a connection of its own, on which this arrives. -/
def alone (server : Server ω) (arrivals : List Arrival) (clock : Clock) (writer : Writer) :
    Outcome ServerError Unit × Session ω :=
  let reader : Reader := { arrivals, capacity := server.config.readBufferSize }
  server.serve { link := { clock, reader, writer }, counters := {} }

/-- Alone on its connection, at this moment, the request is accepted and answered, and its body is
read to its end. -/
structure Replies (server : Server ω) (m : Message) (clock : Clock) (writer : Writer)
    (s : Session ω) (response : Bytes) : Prop where
  stays : m.request.wantsClose = false
  fits : (m.blanks.flatten ++ m.head).length ≤ server.config.maxHeadSize
  served : server.alone [.bytes m.wire] clock writer = (.ok (), s)
  read : m.framing = .empty ∨ s.link.body.released = true
  output : s.link.writer.output = writer.output ++ response

/-- Each request alone on a connection of its own, at the moment at which the one before was done.
The writers are those that are left, or any others that are as good. -/
inductive Serial (server : Server ω) :
    Clock → Writer → List Message → List Bytes → Clock → Writer → Prop where
  | none (clock : Clock) (writer : Writer) : Serial server clock writer [] [] clock writer
  | next {clock clock' : Clock} {writer fresh writer' : Writer} {m : Message}
      {messages : List Message} {s : Session ω} {response : Bytes} {responses : List Bytes}
      (replies : server.Replies m clock writer s response) (asGood : s.link.writer.AsGood fresh)
      (rest : Serial server s.link.clock fresh messages responses clock' writer') :
      Serial server clock writer (m :: messages) (response :: responses) clock' writer'

theorem rest_of_proceed {x : Exchange} {y : Bytes} {tail : List Arrival} {r : Reader}
    (holds : s.link.reader.Holds m.body [])
    (eq : server.exchange m.request m.framing x s = (.proceed, s₁))
    (within : Decoder.Within y tail s₁.link.body s₁.link.reader r) :
    s₁.link.reader.Holds [] [] ∧ r.Holds y tail := by
  obtain ⟨x, rest, here, there⟩ := within.rest
  have none : x = [] := by
    by_cases empty : m.framing = .empty
    · obtain ⟨answers, reads⟩ := onlyReads_exchange eq
      rw [empty] at reads
      have same := (reads.done rfl).1
      have spans := m.spans
      rw [empty] at spans
      rw [same] at here
      rw [spans.of_empty] at holds
      exact here.unique holds
    · have kept := isLeftOver_of_proceed eq
      rw [isLeftOver, Bool.and_eq_false_iff] at kept
      rcases kept with other | whole
      · exact absurd (by simpa using other) empty
      · have done := within.ended (by simpa using whole)
        rw [done] at rest
        exact rest.of_done
  subst none
  exact ⟨here, there⟩

theorem answer_message {step : Step}
    (eq : server.exchange m.request m.framing s.exchange s.issue = (step, s₁)) :
    server.answer m.head s = (step, s₁) := by
  rw [answer, m.parsed]
  simp only [m.framed]
  exact eq

/-- A request in front of others is answered as it is answered alone, and nothing of it is left. -/
theorem serve_message (keeps : server.config.keepAlive = true)
    (room : 0 < server.config.readBufferSize) {clock : Clock} {writer : Writer} {response : Bytes}
    {alone : Session ω} (replies : server.Replies m clock writer alone response)
    (now : s.link.clock = clock) (asGood : writer.AsGood s.link.writer)
    (holds : s.link.reader.Holds (m.wire ++ y) tail) :
    ∃ s', server.serve s = server.serve s' ∧ s'.link.clock = alone.link.clock ∧
      s'.link.reader.Holds y tail ∧ alone.link.writer.AsGood s'.link.writer ∧
      s'.link.writer.output = s.link.writer.output ++ response ∧
      s'.counters = s.counters.behind (.served 1) := by
  obtain ⟨stays, fits, served, read, output⟩ := replies
  subst now
  let own : Link :=
    { clock := s.link.clock
      reader := { arrivals := [.bytes m.wire], capacity := server.config.readBufferSize }
      writer }
  -- either connection reads the head, and is then in front of the body
  have bare := Reader.holds_segments room [m.wire] []
  rw [List.flatten_singleton, Message.wire] at bare
  rw [Message.wire, List.append_assoc, List.append_assoc] at holds
  obtain ⟨r₁, read₁, holds₁⟩ := Wire.readHead_whole m.blank m.whole fits bare s.link.clock
  obtain ⟨r₂, read₂, holds₂⟩ := Wire.readHead_whole m.blank m.whole fits holds s.link.clock
  have head₁ : own.readHead server.config.maxHeadSize =
      (.ok (some m.head), { own with reader := r₁ }) := by
    rw [Link.readHead, show Wire.readHead _ own.reader own.clock = _ from read₁]
  have head₂ : s.link.readHead server.config.maxHeadSize =
      (.ok (some m.head), { s.link with reader := r₂ }) := by
    rw [Link.readHead, read₂]
  let a : Session ω := { link := { own with reader := r₁ }, counters := {} }
  let t : Session ω := { s with link := { s.link with reader := r₂ } }
  have alike : Link.AlikeIn (Decoder.Within y tail)
      (Writer.Parallel writer.output s.link.writer.output)
      (a.issue.link.expect m.framing server.config.readBufferSize)
      (t.issue.link.expect m.framing server.config.readBufferSize) :=
    ⟨rfl, rfl, Decoder.within_start m.spans _ holds₁ holds₂, asGood.parallel⟩
  rcases answered : server.exchange m.request m.framing a.exchange a.issue with ⟨step, a₁⟩
  have here : a.issue.Later s.counters s.seen t.issue := ⟨rfl, rfl⟩
  have number : t.exchange.id = s.counters.issued + a.exchange.id := rfl
  obtain ⟨s', answered', alike', later⟩ := exchange_alike
    (Link.likeness_alikeIn (Decoder.likeness_within y tail) (Writer.likeness_parallel _ _))
    alike here number answered
  -- alone the request does not end the connection
  obtain ⟨rfl, rest⟩ : step = .proceed ∧ server.serve a₁ = (.ok (), alone) := by
    rw [Server.alone, serve_eq] at served
    rw [show Link.readHead _ server.config.maxHeadSize = _ from head₁] at served
    simp only at served
    rw [show server.answer m.head _ = _ from answer_message answered] at served
    cases step with
    | proceed => exact ⟨rfl, served⟩
    | finished result =>
        cases served
        exact absurd answered (exchange_not_finished keeps stays read)
  -- and then there is no other on its connection
  obtain ⟨ended, left⟩ := rest_of_proceed holds₁ answered alike'.reader
  have limit : 0 < server.config.maxHeadSize := by
    have := List.length_pos_iff.mpr m.whole.ne_nil
    rw [List.length_append] at fits
    omega
  obtain ⟨r₃, none⟩ := Wire.readHead_end limit ended a₁.link.clock
  rw [serve_eq, Link.readHead, none] at rest
  cases rest
  refine ⟨s', ?_, alike'.clock, left, alike'.writer.toAsGood, alike'.writer.output_eq output, ?_⟩
  · conv => lhs; rw [serve_eq, head₂]
    simp only
    rw [show server.answer m.head _ = _ from answer_message answered']
    rfl
  · rw [later.counters, exchange_proceed answered]
    rfl

/-- Serial exchanges compose. Requests that stand in a row on a connection that is kept alive get the
responses that each of them gets alone, and what comes behind them is served as it is served alone,
but for the numbers of its exchanges. -/
theorem serve_serial (keeps : server.config.keepAlive = true)
    (room : 0 < server.config.readBufferSize) {clock clock' : Clock} {writer writer' : Writer}
    {messages : List Message} {responses : List Bytes}
    (serial : server.Serial clock writer messages responses clock' writer') {t : Bytes}
    (now : s.link.clock = clock) (asGood : writer.AsGood s.link.writer)
    (holds : s.link.reader.Holds (messages.flatMap Message.wire ++ t) tail) :
    let n := messages.length
    let rest := server.alone (.bytes t :: tail) clock' writer'
    ∃ s' wire, server.serve s = (rest.1.mapError (.later (s.counters.issued + n)), s') ∧
      rest.2.link.writer.output = writer'.output ++ wire ∧
      s'.link.writer.output = s.link.writer.output ++ (responses.flatten ++ wire) ∧
      s'.counters = (s.counters.behind (.served n)).behind rest.2.counters := by
  induction serial generalizing s with
  | none clock writer =>
      intro n rest
      let own : Link :=
        { clock
          reader := { arrivals := .bytes t :: tail, capacity := server.config.readBufferSize }
          writer }
      have bare := Reader.holds_segments room [t] tail
      rw [List.flatten_singleton] at bare
      have alike : Link.Alike (Writer.Parallel writer.output s.link.writer.output) own s.link :=
        ⟨now, bare.alike holds, asGood.parallel⟩
      have here : Session.Later s.counters s.seen { link := own, counters := {} } s := ⟨rfl, rfl⟩
      obtain ⟨s', served, alike', later⟩ :=
        serve_alike (Writer.likeness_parallel _ _) alike here rfl
      obtain ⟨wire, one, other⟩ := alike'.writer.output
      exact ⟨s', wire, served, one, other, later.counters⟩
  | @next clock clock' writer fresh writer' m messages a response responses replies fits rest ih =>
      rw [List.flatMap_cons, List.append_assoc] at holds
      obtain ⟨s₁, same, now₁, holds₁, asGood₁, output, counters⟩ :=
        serve_message keeps room replies now asGood holds
      obtain ⟨s', wire, served, one, other, counted⟩ := ih now₁ (fits.symm.trans asGood₁) holds₁
      refine ⟨s', wire, ?_, one, ?_, ?_⟩
      · have issued : (s.counters.behind (.served 1)).issued + messages.length =
            s.counters.issued + (m :: messages).length := by
          rw [Counters.behind, Counters.served, List.length_cons, Nat.add_assoc, Nat.add_comm 1]
        rw [same, served, counters, issued]
      · rw [other, output, List.flatten_cons, List.append_assoc, List.append_assoc]
      · rw [counted, counters, Counters.behind_served]
        rfl

/-- A request with two bytes behind a blank line, and then a head that cannot be read. -/
theorem serve_serial_refused :
    let echo : Handler Unit := fun _ => .collect fun read => match read with
      | .ok b => .respond { status := .ok, body := .ofBytes b }
      | .error _ => .panic
    let server : Server Unit := { config := {}, routes := ⟨[⟨.post, ⟨"/", [.literal ""]⟩, echo⟩]⟩ }
    let head := Utf8.encode "POST / HTTP/1.1\r\nHost: a\r\nContent-Length: 2\r\n\r\n"
    let message := Bytes.crlf ++ (head ++ [104, 105])
    let alone (b : Bytes) := server.alone [.bytes b] { limit := 0 } {}
    (alone (message ++ [63, 10, 10])).1 = .error (.parse (.badRequestLine "?")) ∧
      (alone (message ++ [63, 10, 10])).2.link.writer.output =
        (alone message).2.link.writer.output ∧
      (alone (message ++ [63, 10, 10])).2.counters = ⟨2, 1, 1⟩ := by
  intro echo server head message alone
  have line : ∀ text : Bytes, Bytes.lf ∉ text → text ≠ [] →
      ∃ text', Bytes.Line text' (text ++ Bytes.crlf) ∧ text' ≠ [] :=
    fun text noLf some => ⟨text, .crlf noLf, some⟩
  let m : Message := {
    blanks := [Bytes.crlf]
    head
    request := ⟨.post, "/", .http11, [("Host", "a"), ("Content-Length", "2")]⟩
    framing := .length 2
    body := [104, 105]
    chunks := [[104, 105]]
    blank := List.forall_mem_singleton.mpr (.crlf List.not_mem_nil)
    whole := ⟨[Utf8.encode "POST / HTTP/1.1" ++ Bytes.crlf, Utf8.encode "Host: a" ++ Bytes.crlf,
        Utf8.encode "Content-Length: 2" ++ Bytes.crlf], Bytes.crlf, nofun,
      List.forall_mem_cons.mpr ⟨line _ (by decide +kernel) (by decide +kernel),
        List.forall_mem_cons.mpr ⟨line _ (by decide +kernel) (by decide +kernel),
          List.forall_mem_singleton.mpr (line _ (by decide +kernel) (by decide +kernel))⟩⟩,
      .crlf List.not_mem_nil, by decide +kernel⟩
    parsed := by decide +kernel
    framed := by decide +kernel
    spans := .length [104, 105] }
  have served : (alone message).1 = .ok () ∧ (alone message).2.link.body.released = true ∧
      (alone message).2.link.clock = { limit := 0 } ∧ (alone message).2.link.writer.rule = {} := by
    dsimp only [alone, server, echo, message, head]
    decide +kernel
  have refused : (alone [63, 10, 10]).1 = .error (.parse (.badRequestLine "?")) ∧
      (alone [63, 10, 10]).2.link.writer.output = [] ∧ (alone [63, 10, 10]).2.counters = ⟨1, 0, 1⟩ := by
    dsimp only [alone, server, echo]
    decide +kernel
  have replies : server.Replies m { limit := 0 } {} (alone message).2
      (alone message).2.link.writer.output := by
    refine ⟨?_, ?_, Prod.ext served.1 rfl, .inr served.2.1, rfl⟩
    · dsimp only [m]
      decide +kernel
    · dsimp only [m, server, head]
      decide +kernel
  have asGood : (alone message).2.link.writer.AsGood {} :=
    .inr ⟨served.2.2.2 ▸ WriteRule.open_default, WriteRule.open_default⟩
  have serial : server.Serial { limit := 0 } {} [m] [(alone message).2.link.writer.output]
      { limit := 0 } {} := by
    refine .next replies asGood ?_
    rw [served.2.2.1]
    exact .none _ _
  let s : Session Unit := {
    link := {
      clock := { limit := 0 }
      reader := { arrivals := [.bytes (message ++ [63, 10, 10])], capacity := 8192 }
      writer := {} }
    counters := {} }
  have holds : s.link.reader.Holds ([m].flatMap Message.wire ++ [63, 10, 10]) [] := by
    have bare := Reader.holds_segments (show 0 < 8192 by decide) [message ++ [63, 10, 10]] []
    rw [List.flatten_singleton] at bare
    exact bare
  obtain ⟨s', wire, same, rest, output, counters⟩ :=
    serve_serial rfl (by decide) serial (s := s) rfl (.refl _) holds
  have joint : alone (message ++ [63, 10, 10]) = server.serve s := rfl
  have nothing : wire = [] := refused.2.1.symm.trans rest |>.symm
  rw [joint, same]
  refine ⟨?_, ?_, ?_⟩
  · rw [show server.alone _ _ _ = alone [63, 10, 10] from rfl, refused.1]
    rfl
  · rw [output, nothing, List.append_nil, List.flatten_singleton]
    rfl
  · rw [counters, show server.alone _ _ _ = alone [63, 10, 10] from rfl, refused.2.2]
    rfl

end Server

end HttpExchange
