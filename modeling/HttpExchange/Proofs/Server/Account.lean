import HttpExchange.Proofs.Body.Likeness
import HttpExchange.Proofs.Server.InFlight
import HttpExchange.Proofs.Server.Place
import HttpExchange.Proofs.Server.Sending
import HttpExchange.Proofs.Wire.Whole

/-!
The account of a connection. What it has on the wire is whole responses, one for each exchange that
was counted as completed, and a beginning of one more at most. An error is counted once, and comes
with nothing but whole responses where the request was not even understood.
-/

namespace HttpExchange

open Delivery (filled Event)

theorem Producer.writer_incoming {before : List Bytes} {l l' : Link}
    {out : Outcome BodyError Bytes} (eq : incoming.collectOnto before l = (out, l')) :
    l'.writer = l.writer := by
  induction weight : l.weight using Nat.strongRecOn generalizing before l with
  | ind n ih =>
      subst weight
      rw [collectOnto_eq] at eq
      rcases read : l.readPiece with ⟨answer, l₁⟩
      have kept : l₁.writer = l.writer := by
        cases read
        rfl
      rcases answer with (b | _) | e | _
      · simp only [pull, ask, read] at eq
        exact (ih _ ((Link.weight_readPiece read).2 b rfl) eq rfl).trans kept
      all_goals
        simp only [pull, ask, read] at eq
        cases eq
        exact kept

theorem Program.writer_run {ω : Type} {program : Program ω} {seen seen' : List ω} {l l' : Link}
    {verdict : Verdict} (eq : program.run seen l = (verdict, seen', l')) :
    l'.writer = l.writer := by
  induction program generalizing seen l with
  | respond | fail | panic =>
      cases eq
      rfl
  | note what rest ih => exact ih eq
  | pause ms rest ih =>
      rcases waited : l.waitUntil (l.clock.now + ms) with ⟨awake, l₁⟩
      have kept : l₁.writer = l.writer := by
        cases waited
        rfl
      rw [run, waited] at eq
      cases awake with
      | true => exact (ih eq).trans kept
      | false =>
          cases eq
          exact kept
  | pull rest ih =>
      rcases read : l.readPiece with ⟨answer, l₁⟩
      have kept : l₁.writer = l.writer := by
        cases read
        rfl
      rw [run, read] at eq
      cases answer with
      | ok piece => exact (ih _ eq).trans kept
      | error e => exact (ih _ eq).trans kept
      | stuck =>
          cases eq
          exact kept
  | collect rest ih =>
      rcases read : Producer.incoming.collect l with ⟨answer, l₁⟩
      have kept := Producer.writer_incoming read
      rw [run, read] at eq
      cases answer with
      | ok b => exact (ih _ eq).trans kept
      | error e => exact (ih _ eq).trans kept
      | stuck =>
          cases eq
          exact kept

namespace Response

variable {r : Response} {method : Method} {close : Bool} {idle : Option Nat} {l l' : Link}

/-- The bytes of a whole response: its head, and behind it all chunks that its producer gives up to
its end, under the framing that the head announces. -/
def Whole (r : Response) (method : Method) (close : Bool) (l : Link) (b : Bytes) : Prop :=
  ∃ chunks, (r.strip method).body.producer.Completes l chunks ∧
    (r.strip method).body.framing.Admits (filled chunks) ∧
    b = r.head close ++ (r.strip method).body.framing.transfer (filled chunks)

/-- A beginning of a response: of its head, and behind it of the frames of chunks that its producer
gives. It goes into the end of the body only if the producer came to its own. -/
def Begun (r : Response) (method : Method) (close : Bool) (l : Link) (b : Bytes) : Prop :=
  ∃ chunks, (r.strip method).body.producer.Supplies l chunks ∧
    (b <+: r.head close ++ (r.strip method).body.framing.frames (filled chunks) ∨
      (r.strip method).body.producer.Completes l chunks ∧
        b <+: r.head close ++ (r.strip method).body.framing.transfer (filled chunks))

theorem begun_send {x x' : Exchange} {out : Outcome ServerError Unit}
    (eq : r.send x method close idle l = (out, x', l')) :
    ∃ b, r.Begun method close l b ∧ l'.writer.output = l.writer.output ++ b := by
  obtain ⟨b, output, begun⟩ := output_send r x method close idle l
  rw [eq] at output
  refine ⟨b, ?_, output⟩
  rcases begun with part | ⟨chunks, wire, rfl, supplies, shown⟩
  · exact ⟨[], .none _ _, .inl (part.trans (List.prefix_append _ _))⟩
  · refine ⟨chunks, supplies, shown.imp ?_ ?_⟩
    · exact (List.prefix_append_right_inj _).mpr
    · exact And.imp_right (List.prefix_append_right_inj _).mpr

theorem completes_deliver {count : Nat} {d : Delivery}
    (eq : r.deliver idle l = (.ok count, d, l')) :
    ∃ chunks, r.body.producer.Completes l chunks ∧
      l'.writer.output = l.writer.output ++ r.body.framing.transfer (filled chunks) := by
  rcases take_cases r.body with ⟨rest, taken⟩ | taken
  · rcases started : ({ framing := r.body.framing } : Delivery).start
      ((idle.map Patience.idle).getD .endless) r.body.producer l with ⟨out, d₁, l₁⟩
    rw [deliver, taken] at eq
    simp only [Delivery.run, started] at eq
    cases eq
    cases Delivery.verdict_of_start started with
    | finished chunks completes _ _ _ output => exact ⟨chunks, completes, output⟩
    | broken _ _ _ _ cause => rcases cause with stuck | ⟨_, failed⟩ <;> contradiction
  · rw [deliver, taken] at eq
    cases eq

theorem whole_send {x x' : Exchange} (eq : r.send x method close idle l = (.ok (), x', l')) :
    ∃ b, r.Whole method close l b ∧ l'.writer.output = l.writer.output ++ b := by
  rcases sent : l.send (r.head close) with ⟨out, l₁⟩
  obtain ⟨part, put, whole, _⟩ := Delivery.put_send sent
  rw [send, sent] at eq
  rcases out with _ | _ | _
  · cases whole rfl
    rcases delivered : (r.strip method).deliver idle l₁ with ⟨out₂, d, l₂⟩
    simp only [delivered] at eq
    rcases out₂ with count | _ | _
    · cases eq
      obtain ⟨chunks, completes, output⟩ := completes_deliver delivered
      rw [put.link] at completes
      refine ⟨_, ⟨chunks, completes.behind, Body.admits_of_completes completes, rfl⟩, ?_⟩
      rw [output, put.output, List.append_assoc]
    · cases eq
    · cases eq
  · cases eq
  · cases eq

/-- While a response is sent the sending direction stays open, and it is closed behind a failure. -/
theorem trace_send {x x' : Exchange} {out : Outcome ServerError Unit}
    (eq : r.send x method close idle l = (out, x', l')) :
    l.writer.ClosesLast l'.writer ∧ (out = .ok () → l.writer.StaysOpen l'.writer) := by
  rcases sent : l.send (r.head close) with ⟨answer, l₁⟩
  have head : l.writer.StaysOpen l₁.writer := Delivery.staysOpen_send sent
  rw [send, sent] at eq
  rcases answer with _ | _ | _
  · rcases delivered : (r.strip method).deliver idle l₁ with ⟨out₂, d, l₂⟩
    have open_ : l.writer.StaysOpen l₂.writer :=
      ⟨_, shown_of_delivered sent delivered, Event.shut_notMem_flatMap _ _⟩
    simp only [delivered] at eq
    rcases out₂ with _ | _ | _
    · cases eq
      exact ⟨open_.closesLast, fun _ => open_⟩
    · cases eq
      refine ⟨open_.behind l₂.closesLast_shutdown, ?_⟩
      intro ended
      cases ended
    · cases eq
      exact ⟨open_.closesLast, fun _ => open_⟩
  · cases eq
    exact ⟨head.closesLast, fun _ => head⟩
  · cases eq
    exact ⟨head.closesLast, fun _ => head⟩

end Response

variable {ω : Type}

namespace Server

/-- A request that a server understands in a session, with the response that it comes to. The link
is the one behind the handler, over which the response is sent. -/
structure Handling (server : Server ω) (s : Session ω) where
  head : Bytes
  opened : Link
  request : RequestHead
  framing : Framing
  response : Response
  seen : List ω
  link : Link
  read : s.link.readHead server.config.maxHeadSize = (.ok (some head), opened)
  parsed : RequestHead.parse head = .ok request
  framed : Framing.ofRequest request = .ok framing
  responded : server.respond request framing s.seen
    (opened.expect framing server.config.readBufferSize) = (some response, seen, link)

namespace Handling

variable {server : Server ω} {s : Session ω} (h : server.Handling s)

def Whole (b : Bytes) : Prop :=
  h.response.Whole h.request.method (server.closes h.request) h.link b

def Begun (b : Bytes) : Prop :=
  h.response.Begun h.request.method (server.closes h.request) h.link b

def answer : Step × Session ω := server.answer h.head { s with link := h.opened }

end Handling

/-- What a server writes from a session on: the whole responses to the requests that it finds there,
one behind the other, and a part of the response to the next one. -/
inductive Writes (server : Server ω) : Session ω → List Bytes → Bytes → Prop where
  | nothing (s : Session ω) : Writes server s [] []
  | part {s : Session ω} (h : server.Handling s) {b : Bytes} (begun : h.Begun b) :
      Writes server s [] b
  /-- No request is looked for behind the last one. -/
  | last {s s' : Session ω} (h : server.Handling s) {b : Bytes} (whole : h.Whole b)
      (finished : h.answer = (.finished (.ok ()), s')) : Writes server s [b] []
  | next {s s' : Session ω} (h : server.Handling s) {b part : Bytes} {responses : List Bytes}
      (whole : h.Whole b) (proceeds : h.answer = (.proceed, s'))
      (rest : Writes server s' responses part) : Writes server s (b :: responses) part

/-- What a server finds in a session is no request that it could understand. -/
inductive Refuses (server : Server ω) (s : Session ω) : Prop where
  /-- The input failed within a head. -/
  | unread {e : WireError} {link : Link}
      (read : s.link.readHead server.config.maxHeadSize = (.error e, link))
  | oversized {x : Bytes} {tail : List Arrival} (holds : s.link.reader.Holds x tail)
      (without : ¬ Wire.Begins server.config.maxHeadSize x)
      (large : server.config.maxHeadSize ≤ x.length)
  | truncated {x : Bytes} {tail : List Arrival} (holds : s.link.reader.Holds x tail)
      (without : ¬ Wire.Begins server.config.maxHeadSize x)
      (short : x.length < server.config.maxHeadSize) (severed : Arrival.Severed tail)
      (begun : ¬ ∃ blanks : List Bytes, (∀ line ∈ blanks, Bytes.Line [] line) ∧ x = blanks.flatten)
  | malformed {head : Bytes} {link : Link} {e : HeadError}
      (read : s.link.readHead server.config.maxHeadSize = (.ok (some head), link))
      (unparsed : RequestHead.parse head = .error e)
  /-- The length of the body cannot be read. -/
  | unframed {head : Bytes} {link : Link} {request : RequestHead} {e : WireError}
      (read : s.link.readHead server.config.maxHeadSize = (.ok (some head), link))
      (parsed : RequestHead.parse head = .ok request)
      (unframed : Framing.ofRequest request = .error e)

variable {server : Server ω} {s s₁ s' : Session ω} {head : RequestHead} {framing : Framing}
  {step : Step} {out : Outcome ServerError Unit}

theorem writer_respond {seen seen' : List ω} {l l' : Link} {r : Option Response}
    (eq : server.respond head framing seen l = (r, seen', l')) : l'.writer = l.writer := by
  unfold respond at eq
  split at eq
  · cases eq
    rfl
  · split at eq <;> next ran =>
      cases eq
      exact Program.writer_run ran

inductive Handling.Leaves (h : server.Handling s) : Step → Session ω → Prop where
  | proceeds {s' : Session ω} (b : Bytes) (whole : h.Whole b)
      (output : s'.link.writer.output = s.link.writer.output ++ b)
      (counters : s'.counters = s.counters.issue.complete)
      (open_ : s.link.writer.StaysOpen s'.link.writer) : Leaves h .proceed s'
  | ends {s' : Session ω} (b : Bytes) (whole : h.Whole b)
      (output : s'.link.writer.output = s.link.writer.output ++ b)
      (counters : s'.counters = s.counters.issue.complete)
      (closes : s.link.writer.ClosesLast s'.link.writer) : Leaves h (.finished (.ok ())) s'
  | breaks {s' : Session ω} (b : Bytes) (e : ServerError) (begun : h.Begun b)
      (output : s'.link.writer.output = s.link.writer.output ++ b)
      (counters : s'.counters = s.counters.issue.abort)
      (closes : s.link.writer.ClosesLast s'.link.writer) : Leaves h (.finished (.error e)) s'

theorem Handling.writer (h : server.Handling s) : h.link.writer = s.link.writer := by
  have opened : h.opened.writer = s.link.writer := congrArg (·.2.writer) h.read.symm
  exact (writer_respond h.responded).trans opened

/-- An exchange that is carried out ends in one of three ways. -/
theorem Handling.leaves (h : server.Handling s) (eq : h.answer = (step, s'))
    (returned : step ≠ .finished .stuck) : h.Leaves step s' := by
  have writer := h.writer
  rw [answer, Server.answer, h.parsed] at eq
  simp only [h.framed, exchange, Session.issue, h.responded] at eq
  split at eq
  · cases eq
    exact absurd rfl returned
  · next sent =>
      cases eq
      obtain ⟨b, begun, output⟩ := Response.begun_send sent
      obtain ⟨closes, _⟩ := Response.trace_send sent
      rw [writer] at output closes
      exact .breaks b _ begun output rfl closes
  · next sent =>
      obtain ⟨b, whole, output⟩ := Response.whole_send sent
      obtain ⟨_, open_⟩ := Response.trace_send sent
      have still := open_ rfl
      rw [writer] at output still
      unfold settle at eq
      split at eq
      · cases eq
        refine .ends b whole ?_ rfl (still.behind (Link.closesLast_shutdown _))
        exact (Link.output_shutdown _).trans output
      · cases eq
        exact .proceeds b whole output rfl still

theorem handling_of_answer {bytes : Bytes} {opened : Link}
    (read : s.link.readHead server.config.maxHeadSize = (.ok (some bytes), opened))
    (eq : server.answer bytes { s with link := opened } = (step, s'))
    (returned : step ≠ .finished .stuck) :
    (∃ e, step = .finished (.error e) ∧ s' = ({ s with link := opened } : Session ω).issue.abort) ∨
      ∃ h : server.Handling s, h.answer = (step, s') := by
  cases parsed : RequestHead.parse bytes with
  | error e =>
      rw [answer, parsed] at eq
      cases eq
      exact .inl ⟨_, rfl, rfl⟩
  | ok request =>
      cases framed : Framing.ofRequest request with
      | error e =>
          rw [answer, parsed] at eq
          simp only [framed] at eq
          cases eq
          exact .inl ⟨_, rfl, rfl⟩
      | ok framing =>
          rcases responded : server.respond request framing s.seen
            (opened.expect framing server.config.readBufferSize) with ⟨response, seen, link⟩
          cases response with
          | none =>
              rw [answer, parsed] at eq
              simp only [framed, exchange, Session.issue, responded] at eq
              cases eq
              exact absurd rfl returned
          | some r => exact .inr ⟨⟨bytes, opened, request, framing, r, seen, link, read, parsed,
              framed, responded⟩, eq⟩

/-- Either no head is read, or what is read is refused for its form or for its framing. -/
theorem Refuses.fails (refuses : server.Refuses s) :
    (∃ e link, s.link.readHead server.config.maxHeadSize = (.error e, link)) ∨
      ∃ head link, s.link.readHead server.config.maxHeadSize = (.ok (some head), link) ∧
        ((∃ e, RequestHead.parse head = .error e) ∨
          ∃ request e, RequestHead.parse head = .ok request ∧
            Framing.ofRequest request = .error e) := by
  have unread : ∀ {e : WireError}, (∃ r, Wire.readHead server.config.maxHeadSize s.link.reader
      s.link.clock = (.error e, r, s.link.clock)) →
        ∃ e link, s.link.readHead server.config.maxHeadSize = (.error e, link) := by
    rintro e ⟨r, failed⟩
    rw [Link.readHead, failed]
    exact ⟨_, _, rfl⟩
  cases refuses with
  | unread read => exact .inl ⟨_, _, read⟩
  | oversized holds without large =>
      exact .inl (unread ((Wire.readHead_without without holds _).1 large))
  | truncated holds without short severed begun =>
      exact .inl (unread ((Wire.readHead_without without holds _).2 short severed begun))
  | malformed read unparsed => exact .inr ⟨_, _, read, .inl ⟨_, unparsed⟩⟩
  | unframed read parsed unframed => exact .inr ⟨_, _, read, .inr ⟨_, _, parsed, unframed⟩⟩

theorem Refuses.not_handled (refuses : server.Refuses s) (h : server.Handling s) : False := by
  rcases refuses.fails with ⟨e, link, read⟩ | ⟨head, link, read, bad⟩
  · cases read.symm.trans h.read
  · cases read.symm.trans h.read
    rcases bad with ⟨e, unparsed⟩ | ⟨request, e, parsed, unframed⟩
    · cases unparsed.symm.trans h.parsed
    · cases parsed.symm.trans h.parsed
      cases unframed.symm.trans h.framed

theorem serve_of_refuses (refuses : server.Refuses s) :
    ∃ e s', server.serve s = (.error e, s') := by
  rcases refuses.fails with ⟨e, link, read⟩ | ⟨head, link, read, bad⟩
  · rw [serve_eq, read]
    exact ⟨_, _, rfl⟩
  · rw [serve_eq, read]
    rcases bad with ⟨e, unparsed⟩ | ⟨request, e, parsed, unframed⟩
    · simp only [answer, unparsed]
      exact ⟨_, _, rfl⟩
    · simp only [answer, parsed, unframed]
      exact ⟨_, _, rfl⟩

/-- The account of a connection from one session to the other: what was written, what was counted,
and how that goes with the result. -/
structure Accounts (server : Server ω) (s s' : Session ω) (out : Outcome ServerError Unit)
    (responses : List Bytes) (part : Bytes) : Prop where
  writes : server.Writes s responses part
  output : s'.link.writer.output = s.link.writer.output ++ (responses.flatten ++ part)
  closes : s.link.writer.ClosesLast s'.link.writer
  completed : s'.counters.completed = s.counters.completed + responses.length
  result : (∃ e, out = .error e) ∧ s'.counters.aborted = s.counters.aborted + 1 ∨
    out = .ok () ∧ s'.counters.aborted = s.counters.aborted ∧ part = []

theorem accounts_quiet {t : Session ω} (writer : t.link.writer = s.link.writer)
    (counters : t.counters = s.counters) : server.Accounts s t (.ok ()) [] [] := by
  refine ⟨.nothing s, ?_, (Writer.StaysOpen.of_eq writer).closesLast, ?_, ?_⟩
  · rw [writer]
    exact (List.append_nil _).symm
  · rw [counters]
    rfl
  · rw [counters]
    exact .inr ⟨rfl, rfl, rfl⟩

theorem accounts_abort {t : Session ω} (writer : t.link.writer = s.link.writer)
    (completed : t.counters.completed = s.counters.completed)
    (aborted : t.counters.aborted = s.counters.aborted) (e : ServerError) :
    server.Accounts s t.abort (.error e) [] [] := by
  refine ⟨.nothing s, ?_, ?_, completed, .inl ⟨⟨e, rfl⟩, congrArg Nat.succ aborted⟩⟩
  · refine (Link.output_shutdown t.link).trans ?_
    rw [writer]
    exact (List.append_nil _).symm
  · exact (Writer.StaysOpen.of_eq writer).behind t.link.closesLast_shutdown

/-- The account of a connection that ends with an exchange. -/
theorem Handling.accounts (h : server.Handling s) (answered : h.answer = (.finished out, s'))
    (returned : out ≠ .stuck) : ∃ responses part, server.Accounts s s' out responses part := by
  have leaves := h.leaves answered fun stuck => returned (Step.finished.inj stuck)
  cases leaves with
  | ends b whole output counters closes =>
      refine ⟨[b], [], .last h whole answered, ?_, closes, ?_, .inr ⟨rfl, ?_, rfl⟩⟩
      · rw [output, List.flatten_singleton, List.append_nil]
      · rw [counters]
        rfl
      · rw [counters]
        rfl
  | breaks b e begun output counters closes =>
      refine ⟨[], b, .part h begun, output, closes, ?_, .inl ⟨⟨e, rfl⟩, ?_⟩⟩
      · rw [counters]
        rfl
      · rw [counters]
        rfl

/-- An exchange that another one may follow stands in front of the account of what follows. -/
theorem Handling.accounts_cons {responses : List Bytes} {part : Bytes} (h : server.Handling s)
    (answered : h.answer = (.proceed, s₁)) (rest : server.Accounts s₁ s' out responses part) :
    ∃ b, server.Accounts s s' out (b :: responses) part := by
  have leaves := h.leaves answered Step.noConfusion
  cases leaves with
  | proceeds b whole output counters open_ =>
      have completed : s₁.counters.completed = s.counters.completed + 1 := by
        rw [counters]
        rfl
      have aborted : s₁.counters.aborted = s.counters.aborted := by
        rw [counters]
        rfl
      refine ⟨b, .next h whole answered rest.writes, ?_, open_.behind rest.closes, ?_, ?_⟩
      · rw [rest.output, output, List.flatten_cons]
        simp only [List.append_assoc]
      · rw [rest.completed, completed, List.length_cons]
        omega
      · rw [← aborted]
        exact rest.result

/-- Where a request was handled, others are looked for behind it. -/
theorem Looks.behind {heads : List Bytes} (looks : server.Looks s heads s₁)
    (h : server.Handling s) (refuses : server.Refuses s₁) :
    ∃ s₂ later, h.answer = (.proceed, s₂) ∧ server.Looks s₂ later s₁ := by
  cases looks with
  | here => exact (refuses.not_handled h).elim
  | next read answered rest =>
      cases h.read.symm.trans read
      exact ⟨_, _, answered, rest⟩

theorem accounts_of_serve (eq : server.serve s = (out, s')) (returned : out ≠ .stuck) :
    ∃ responses part, server.Accounts s s' out responses part ∧
      ∀ heads s₁, server.Looks s heads s₁ → server.Refuses s₁ → part = [] := by
  fun_induction serve server s with
  | case1 s link read =>
      cases eq
      have writer : link.writer = s.link.writer := congrArg (·.2.writer) read.symm
      exact ⟨[], [], accounts_quiet writer rfl, fun _ _ _ _ => rfl⟩
  | case2 s e link read =>
      cases eq
      have writer : link.writer = s.link.writer := congrArg (·.2.writer) read.symm
      refine ⟨[], [], ?_, fun _ _ _ _ => rfl⟩
      exact accounts_abort (t := { s with link }) writer rfl rfl _
  | case3 s link read =>
      cases eq
      exact absurd rfl returned
  | case4 s head link read result s₂ answered =>
      cases eq
      have own : Step.finished out ≠ .finished .stuck :=
        fun stuck => returned (Step.finished.inj stuck)
      rcases handling_of_answer read answered own with ⟨e, same, rfl⟩ | ⟨h, same⟩
      · cases same
        have writer : link.writer = s.link.writer := congrArg (·.2.writer) read.symm
        refine ⟨[], [], ?_, fun _ _ _ _ => rfl⟩
        exact accounts_abort (t := ({ s with link } : Session ω).issue) writer rfl rfl e
      · obtain ⟨responses, part, accounts⟩ := h.accounts same returned
        refine ⟨responses, part, accounts, ?_⟩
        intro heads s₁ looks refuses
        obtain ⟨_, _, proceeds, _⟩ := looks.behind h refuses
        cases same.symm.trans proceeds
  | case5 s head link read s₂ answered ih =>
      obtain ⟨responses, part, accounts, refused⟩ := ih eq
      rcases handling_of_answer read answered Step.noConfusion with ⟨e, same, _⟩ | ⟨h, same⟩
      · cases same
      · obtain ⟨b, all⟩ := h.accounts_cons same accounts
        refine ⟨b :: responses, part, all, ?_⟩
        intro heads s₁ looks refuses
        obtain ⟨_, later, proceeds, rest⟩ := looks.behind h refuses
        cases same.symm.trans proceeds
        exact refused later s₁ rest refuses

/-- The account of every connection that comes to an end. It has written whole responses, one for
each exchange that it completed, and a part of one more at most; it was closed once at most, behind
all that; and exactly an error is counted as aborted, and once. Where a request cannot be understood
the connection ends with an error, and no response was begun. -/
theorem serve_accounts (served : server.serve s = (out, s')) :
    (out ≠ .stuck → ∃ responses part, server.Accounts s s' out responses part ∧
        ∀ heads s₁, server.Looks s heads s₁ → server.Refuses s₁ → part = []) ∧
      ∀ heads s₁, server.Looks s heads s₁ → server.Refuses s₁ → ∃ e, out = .error e := by
  refine ⟨accounts_of_serve served, ?_⟩
  intro heads s₁ looks refuses
  obtain ⟨e, s₂, failed⟩ := serve_of_refuses refuses
  rw [serve_of_looks looks, failed] at served
  cases served
  exact ⟨e, rfl⟩

/-- A request, and then two bytes of a further head. On a wire that takes ten bytes not even the
first response is whole. -/
theorem serve_accounts_truncated :
    let server : Server Unit := { config := {}, routes := {} }
    let head := Utf8.encode "GET / HTTP/1.1\r\nHost: a\r\n\r\n"
    let session (rule : WriteRule) : Session Unit := {
      link := {
        clock := { limit := 0 }
        reader := { arrivals := [.bytes head, .bytes [71, 69]], capacity := 64 }
        writer := { rule } }
      counters := {} }
    let full : WriteRule := { failAt := some (10, ⟨.brokenPipe, "gone"⟩) }
    (∃ e s' b, server.serve (session {}) = (.error e, s') ∧
        server.Accounts (session {}) s' (.error e) [b] []) ∧
      ∃ e s' part, server.serve (session full) = (.error e, s') ∧
        server.Accounts (session full) s' (.error e) [] part ∧ part.length = 10 := by
  intro server head session full
  constructor
  · let link := ((session {}).link.readHead 16384).2
    let answered := server.answer head { session {} with link }
    have read : (session {}).link.readHead 16384 = (.ok (some head), link) := by rfl
    have proceeds : answered.1 = .proceed := by
      dsimp only [answered, link, session, head, server]
      decide +kernel
    have left : answered.2.link.reader = { arrivals := [.bytes [71, 69]], capacity := 64 } := by
      dsimp only [answered, link, session, head, server]
      decide +kernel
    have counts : (server.serve (session {})).2.counters = ⟨1, 1, 1⟩ := by
      dsimp only [session, head, server]
      decide +kernel
    have looks : server.Looks (session {}) [head] answered.2 :=
      .next read (Prod.ext proceeds rfl) (.here _)
    have holds : answered.2.link.reader.Holds [71, 69] [] := by
      rw [left]
      exact Reader.holds_segments (by decide) [[71, 69]] []
    have noLf : Bytes.lf ∉ ([71, 69] : Bytes) := by decide
    have begun : ¬ ∃ blanks : List Bytes, (∀ line ∈ blanks, Bytes.Line [] line) ∧
        ([71, 69] : Bytes) = blanks.flatten := by
      rintro ⟨blanks, each, same⟩
      cases blanks with
      | nil => cases same
      | cons line blanks =>
          have member := (each line List.mem_cons_self).lf_mem
          rw [same] at noLf
          exact noLf (List.mem_append_left _ member)
    have refuses : server.Refuses answered.2 :=
      .truncated holds (Wire.not_begins_of_noLf _ noLf) (by decide) (.inl rfl) begun
    rcases served : server.serve (session {}) with ⟨out, s'⟩
    rw [served] at counts
    obtain ⟨accounts, fails⟩ := serve_accounts served
    obtain ⟨e, rfl⟩ := fails _ _ looks refuses
    have returned : Outcome.error e ≠ (.stuck : Outcome ServerError Unit) := by
      intro stuck
      cases stuck
    obtain ⟨responses, part, account, refused⟩ := accounts returned
    cases refused _ _ looks refuses
    have one : 1 = 0 + responses.length :=
      (congrArg Counters.completed counts).symm.trans account.completed
    obtain ⟨b, rfl⟩ := List.length_eq_one_iff.mp (one.trans (Nat.zero_add _)).symm
    exact ⟨e, s', b, rfl, account⟩
  · have counts : (server.serve (session full)).2.counters = ⟨1, 0, 1⟩ := by
      dsimp only [session, head, server, full]
      decide +kernel
    have wire : (server.serve (session full)).2.link.writer.output.length = 10 := by
      dsimp only [session, head, server, full]
      decide +kernel
    have returned : (server.serve (session full)).1 ≠ .stuck := by
      dsimp only [session, head, server, full]
      decide +kernel
    rcases served : server.serve (session full) with ⟨out, s'⟩
    rw [served] at counts wire returned
    obtain ⟨responses, part, account, _⟩ := (serve_accounts served).1 returned
    have none : 0 = 0 + responses.length :=
      (congrArg Counters.completed counts).symm.trans account.completed
    cases List.length_eq_zero_iff.mp (none.trans (Nat.zero_add _)).symm
    rw [account.output] at wire
    rcases account.result with ⟨⟨e, rfl⟩, _⟩ | ⟨_, aborted, _⟩
    · exact ⟨e, s', part, rfl, account, wire⟩
    · rw [counts] at aborted
      cases aborted

end Server

end HttpExchange
