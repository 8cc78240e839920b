import HttpExchange.Client.Exchange
import HttpExchange.Proofs.Body.Failing
import HttpExchange.Proofs.Body.Timing

/-!
A request that is not sent whole. Whatever the server may have sent already, the client does not look
at it: it closes the sending direction and reports what went wrong, and the wire has no more of the
request than was got through.
-/

namespace HttpExchange

open Delivery (filled)

variable {c : Client} {d : Draft} {p : Producer} {l l' l₁ : Link} {chunks sends : List Bytes}
  {cause : Option Mishap}

namespace Draft

theorem sendBody_of_failed (stream : d.body = .ofProducer p) {delivery : Delivery} {e : BodyError}
    (ran : ({ framing := .chunked } : Delivery).run .endless p l = (.error e, delivery, l')) :
    d.sendBody l = (.error (.requestBody e), l'.shutdown) := by
  have fresh : d.body.consumed = false := congrArg Body.consumed stream
  rw [sendBody, Body.take, if_neg (by rw [fresh]; exact Bool.false_ne_true), stream]
  simp only [show (Body.ofProducer p).producer = p from rfl,
    show (Body.ofProducer p).framing = .chunked from rfl, ran]
  rfl

end Draft

namespace Client

/-- What is reported of a request that is not sent whole, and what the wire has of it. A failure
within the head is told apart from one behind it; behind the head the sending direction is closed
once, behind all that was written. -/
inductive Unsent (head : Bytes) (chunks sends : List Bytes) (cause : Option Mishap) (l : Link) :
    ClientError → Link → Prop where
  | head {fault : IoFault} {part : Bytes} {l' : Link} (fails : l.writer.FailsIn [head])
      (beginning : part <+: head) (output : l'.writer.output = l.writer.output ++ part) :
      Unsent head chunks sends cause l (.body (.wire (.io fault))) l'
  | writer {fault : IoFault} {part : Bytes} {l' : Link} (passed : ¬ l.writer.FailsIn [head])
      (fails : l.writer.FailsIn (head :: [] :: sends)) (beginning : part <+: sends.flatten)
      (output : l'.writer.output = l.writer.output ++ (head ++ part))
      (closed : l.writer.Closes l'.writer) :
      Unsent head chunks sends cause l (.requestBody (.wire (.io fault))) l'
  | producer {mishap : Mishap} {l' : Link} (same : cause = some mishap)
      (passed : ¬ l.writer.FailsIn (head :: [] :: sends))
      (output : l'.writer.output =
        l.writer.output ++ (head ++ Framing.chunked.frames (filled chunks)))
      (closed : l.writer.Closes l'.writer) :
      Unsent head chunks sends cause l (.requestBody (.postCommit (filled chunks).length mishap)) l'

theorem send_of_head (valid : d.spoiled = false) {e : WireError}
    (sent : l.send (d.head c.config) = (.error e, l')) :
    c.send d l = (.error (.body (.wire e)), { c with issued := c.issued + 1 }, l') := by
  rw [send, valid, if_neg Bool.false_ne_true]
  simp only [sent]

theorem send_of_body (valid : d.spoiled = false)
    (sent : l.send (d.head c.config) = (.ok (), l₁)) {e : ClientError}
    (failed : d.sendBody l₁ = (.error e, l')) :
    c.send d l = (.error e, { c with issued := c.issued + 1 }, l') := by
  rw [send, valid, if_neg Bool.false_ne_true]
  simp only [sent, failed]

/-- Where the body fails behind the head, the input is as it was, and the sending direction is
closed. -/
theorem unsent_of_run (valid : d.spoiled = false) (stream : d.body = .ofProducer p)
    (own : p ≠ .incoming) (sent : l.send (d.head c.config) = (.ok (), l₁)) {delivery : Delivery}
    {e : BodyError}
    (ran : ({ framing := .chunked } : Delivery).run .endless p l₁ = (.error e, delivery, l')) :
    c.send d l = (.error (.requestBody e), { c with issued := c.issued + 1 }, l'.shutdown) ∧
      l.Still l'.shutdown ∧ l.writer.Closes l'.shutdown.writer := by
  have still := (Link.still_send sent).trans (Delivery.still_run own ran)
  have open_ := (Delivery.staysOpen_send sent).trans (Delivery.staysOpen_run ran)
  refine ⟨send_of_body valid sent (Draft.sendBody_of_failed stream ran), ?_, ?_⟩
  · exact still.trans (Link.still_shutdown l')
  · exact open_.closes (Link.events_shutdown l')

/-- A request that fails to be sent never gets a response. Whatever the server has sent already,
nothing of it is read: the chunks are the caller's, and none of them comes off this connection. A
failure of the writer within the head is reported as such. Behind the head the failure is one of the
body, and the sending direction is closed once: the wire has the head and a beginning of the frames
and the end if the writer failed, and the head and just the whole frames of the chunks before if the
producer did, whose number is reported. -/
theorem send_unsent (c : Client) (valid : d.spoiled = false) (stream : d.body = .ofProducer p)
    (own : p ≠ .incoming) (patient : l.writer.rule.Patient)
    (doomed : p.Doomed l [d.head c.config, []] chunks cause sends) :
    ∃ enough : Nat, ∀ limit, enough ≤ limit → ∃ e l',
      c.send d (l.limited limit) = (.error e, { c with issued := c.issued + 1 }, l') ∧
        l.Still l' ∧ Unsent (d.head c.config) chunks sends cause l e l' := by
  obtain ⟨enough₁, out, l₁, came, sending⟩ := Delivery.send_patient patient (d.head c.config)
  have sent := sending enough₁ (Nat.le_refl _)
  obtain ⟨part, put, _, io⟩ := Delivery.put_send sent
  cases out with
  | stuck => exact absurd rfl came
  | error e =>
      obtain ⟨fault, rfl⟩ := io e rfl
      have fails := Delivery.failsIn_of_send sent
      refine ⟨enough₁, fun limit late => ⟨_, l₁.limited limit, send_of_head valid (sending limit late),
        ⟨put.body, put.reader⟩, ?_⟩⟩
      exact .head fails put.beginning put.output
  | ok =>
      have carried : l.writer.Carried l₁.writer [d.head c.config] :=
        (Delivery.carried_of_send sent :)
      have output₁ : l₁.writer.output = l.writer.output ++ d.head c.config := by
        rw [← List.flatten_singleton (l := d.head c.config)]
        exact carried.output
      have rule : l₁.writer.rule = l.writer.rule := put.rule
      have still₁ : l.Still l₁ := ⟨put.body, put.reader⟩
      -- the head is through: what is doomed is doomed behind it
      obtain ⟨enough₂, interrupted | ⟨mishap, rfl, rfl, fails⟩⟩ :=
        Delivery.run_of_doomed (rule ▸ patient) (doomed.behind carried still₁)
      · refine ⟨max enough₁ enough₂, fun limit late => ?_⟩
        have here := interrupted limit (by omega)
        rcases ran : ({ framing := .chunked } : Delivery).run .endless p (l₁.limited limit) with
          ⟨out, delivery, l'⟩
        rw [ran] at here
        have whole := (here.behind carried).fails
        obtain ⟨_, ⟨fault, rfl⟩, part, beginning, output⟩ := here
        obtain ⟨failed, still, closed⟩ :=
          unsent_of_run valid stream own (sending limit (by omega)) ran
        refine ⟨_, _, failed, ⟨still.body, still.reader⟩, .writer carried.not_failsIn whole beginning ?_ closed⟩
        rw [Link.output_shutdown, output, output₁, List.append_assoc]
      · refine ⟨max enough₁ enough₂, fun limit late => ?_⟩
        obtain ⟨delivery, l', ran, carried'⟩ := fails limit (by omega)
        obtain ⟨failed, still, closed⟩ :=
          unsent_of_run valid stream own (sending limit (by omega)) ran
        refine ⟨_, _, failed, ⟨still.body, still.reader⟩,
          .producer rfl (carried.trans carried').not_failsIn ?_ closed⟩
        rw [Link.output_shutdown, carried'.output, output₁, List.append_assoc]
        rfl

/-- A server that answers before it has the request: to a body whose producer fails behind a chunk,
and to a request whose end is cut by the writer. -/
theorem send_unsent_early :
    let draft (steps : List Yield) : Draft := {
      method := .post
      target := "/"
      body := .ofProducer (.script steps) }
    let c : Client := { config := {} }
    let head := (draft []).head c.config
    let frame := Chunk.frame [72, 101, 108]
    let link (rule : WriteRule) (limit : Nat) : Link := {
      clock := { limit }
      reader := { arrivals := [.bytes (Utf8.encode "HTTP/1.1 200 OK\r\n\r\n")], capacity := 64 }
      writer := { rule } }
    (∃ limit l', c.send (draft [.chunk [72, 101, 108], .pause 5, .raise "gone"]) (link {} limit) =
        (.error (.requestBody (.postCommit 1 (.raised "gone"))), { c with issued := 1 }, l') ∧
      (link {} limit).Still l' ∧ l'.writer.output = head ++ frame ∧
      (link {} limit).writer.Closes l'.writer) ∧
    let rule : WriteRule := { failAt := some (head.length + frame.length + 2, .brokenPipe) }
    ∃ limit fault part l', c.send (draft [.chunk [72, 101, 108]]) (link rule limit) =
        (.error (.requestBody (.wire (.io fault))), { c with issued := 1 }, l') ∧
      (link rule limit).Still l' ∧ part <+: frame ++ Chunk.terminator ∧
      l'.writer.output = head ++ part ∧ (link rule limit).writer.Closes l'.writer := by
  intro draft c head frame link
  constructor
  · let front : List Yield := [.chunk [72, 101, 108], .pause 5]
    have breaks : (Producer.script (front ++ [.raise "gone"])).Breaks (link {} 0)
        (Yield.offered front) (.raised "gone") := Producer.breaks_script (by decide) rfl _
    have willing : WriteRule.Willing {} :=
      ⟨(Option.some_ne_none 0).symm, rfl, rfl, rfl, List.forall_mem_nil _, List.forall_mem_nil _⟩
    obtain ⟨enough, fails⟩ := send_unsent (d := draft (front ++ [.raise "gone"])) c rfl rfl nofun
      willing.patient (.producer breaks)
    obtain ⟨e, l', failed, still, unsent⟩ := fails enough (Nat.le_refl _)
    cases unsent with
    | head fails | writer _ fails => exact absurd fails (Writer.not_fails_of_willing willing _ _)
    | producer same _ output closed =>
        cases same
        have frames : Framing.chunked.frames (filled (Yield.offered front)) = frame := by
          decide +kernel
        rw [frames] at output
        exact ⟨enough, l', failed, ⟨still.body, still.reader⟩, output, closed⟩
  · intro rule
    have patient : rule.Patient := ⟨List.forall_mem_nil _, List.forall_mem_nil _⟩
    have gives : (Producer.script [.chunk [72, 101, 108]]).Gives (link rule 0) [[72, 101, 108]]
        (.script []) (link rule 0).notePull :=
      .chunk (Producer.answers_of_ask rfl nofun nofun) (.none _ _)
    have ends : (Producer.script []).Answers (link rule 0).notePull .ended (.script [])
        (link rule 0).notePull := Producer.answers_of_ask rfl nofun nofun
    have fails : (link rule 0).writer.FailsIn ([head, []] ++
        (Framing.chunked.sends [[72, 101, 108]] ++ [Framing.chunked.terminator])) := by
      refine .failAt rfl ?_ ?_
      · decide +kernel
      · decide +kernel
    obtain ⟨enough, fails⟩ := send_unsent (d := draft [.chunk [72, 101, 108]]) c rfl rfl nofun
      patient (.ending gives ends fails)
    obtain ⟨e, l', failed, still, unsent⟩ := fails enough (Nat.le_refl _)
    cases unsent with
    | head fails =>
        cases fails with
        | failAt failAt _ within =>
            cases failAt
            rw [List.flatten_singleton, show (link rule 0).writer.taken = 0 from rfl] at within
            have : head.length + frame.length + 2 < 0 + head.length := within
            omega
        | full most _ => cases most
        | zeroAt zeroAt _ _ => cases zeroAt
        | failFlush failFlush _ _ => cases failFlush
    | writer _ _ beginning output closed =>
        have sends : (Framing.chunked.sends [[72, 101, 108]] ++
            [Framing.chunked.terminator]).flatten = frame ++ Chunk.terminator := by
          decide +kernel
        rw [sends] at beginning
        exact ⟨enough, _, _, l', failed, ⟨still.body, still.reader⟩, beginning, output, closed⟩
    | producer same _ _ _ => cases same

end Client

end HttpExchange
