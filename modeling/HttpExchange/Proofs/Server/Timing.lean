import HttpExchange.Proofs.Body.Settling
import HttpExchange.Proofs.Body.Timing
import HttpExchange.Proofs.Server.Account

/-!
What a server reads, and what its handlers come to, does not depend on the limit of the clock. A
request that is handled under one limit is handled in the same way under every later one.
-/

namespace HttpExchange

namespace Wire

variable {limit budget : Nat} {lines line : Bytes} {r r' : Reader} {c c' : Clock}
  {out : Outcome WireError (Option Bytes)}

theorem headOnto_of_stuck (limit budget : Nat) (lines line : Bytes)
    (waits : (r.next r.capacity c).1 = .stuck) :
    (headOnto limit (budget + 1) lines line r c).1 = .stuck := by
  rcases asked : r.next r.capacity c with ⟨answer, r₁, c₁⟩
  rw [asked] at waits
  cases waits
  rw [headOnto, asked]

theorem comes_headOnto (eq : headOnto limit budget lines line r c = (out, r', c'))
    (came : out ≠ .stuck) :
    Comes (·.1 = .stuck) (headOnto limit budget lines line r) (fun c => (out, r', c)) := by
  fun_induction headOnto limit budget lines line r c with
  | case1 =>
      cases eq
      exact .now fun _ => rfl
  | case2 _ _ _ _ _ _ _ _ read _ ih | case3 _ _ _ _ _ _ _ _ read _ _ ih
  | case4 _ _ _ _ _ _ _ _ read _ _ _ ih =>
      -- a byte that does not complete the head
      apply (Reader.comes_next read (Outcome.ok_ne_stuck _)).behind (ih eq)
      · intro c c' took
        rw [headOnto, took]
        simp [*]
      · exact fun c => headOnto_of_stuck limit _ _ _
  | case5 budget lines line r c b r₁ c₁ read ends blank some =>
      cases eq
      apply (Reader.comes_next read (Outcome.ok_ne_stuck _)).map
      · intro c c' took
        rw [headOnto, took]
        simp only [if_neg ends, if_neg blank, if_neg some]
      · exact fun c => headOnto_of_stuck limit budget lines line
  | case6 budget lines line r c r₁ c₁ read =>
      cases eq
      apply (Reader.comes_next read (Outcome.ok_ne_stuck _)).map
      · intro c c' took
        rw [headOnto, took]
      · exact fun c => headOnto_of_stuck limit budget lines line
  | case7 budget lines line r c e r₁ c₁ read =>
      cases eq
      apply (Reader.comes_next read (Outcome.error_ne_stuck _)).map
      · intro c c' took
        rw [headOnto, took]
      · exact fun c => headOnto_of_stuck limit budget lines line
  | case8 =>
      cases eq
      exact absurd rfl came

end Wire

theorem Link.comes_readHead {limit : Nat} {l l' : Link} {out : Outcome WireError (Option Bytes)}
    (eq : l.readHead limit = (out, l')) (came : out ≠ .stuck) :
    Comes (·.1 = .stuck) (fun c => { l with clock := c }.readHead limit)
      (fun c => (out, { l' with clock := c })) := by
  rcases read : Wire.readHead limit l.reader l.clock with ⟨answer, reader, clock⟩
  rw [readHead, read] at eq
  cases eq
  apply (Wire.comes_headOnto read came).map
  · intro c c' took
    rw [readHead, Wire.readHead, took]
  · exact fun c waits => waits

namespace Producer

variable {p p' : Producer} {l l' : Link}

theorem comes_pull {pull : Pull} (eq : p.pull l = (pull, p', l')) (own : pull ≠ .cancelled)
    (came : pull ≠ .stuck) :
    Comes (·.1 = .stuck) (fun c => p.pull { l with clock := c })
      (fun c => (pull, p', { l' with clock := c })) := by
  rcases asked : p.ask l with ⟨answer, p₁, permit, l₁⟩
  rw [Producer.pull, asked] at eq
  cases eq
  apply (comes_ask asked own came).map
  · intro c c' took
    rw [Producer.pull, took]
  · exact fun c waits => waits

theorem comes_collectOnto {before : List Bytes} {out : Outcome BodyError Bytes}
    (eq : p.collectOnto before l = (out, l')) (came : out ≠ .stuck) :
    Comes (·.1 = .stuck) (fun c => p.collectOnto before { l with clock := c })
      (fun c => (out, { l' with clock := c })) := by
  have waits : ∀ before (p : Producer) (l : Link), (p.pull l).1 = .stuck →
      (p.collectOnto before l).1 = .stuck := by
    intro before p l stuck
    rcases pulled : p.pull l with ⟨pull, p₁, l₁⟩
    rw [pulled] at stuck
    cases stuck
    rw [collectOnto_eq, pulled]
  fun_induction collectOnto before p l with
  | case1 before p l b p₁ l₁ pulled ih =>
      apply (comes_pull pulled Pull.noConfusion Pull.noConfusion).behind (ih eq)
      · intro c c' took
        rw [collectOnto_eq, took]
      · exact fun c => waits before p _
  | case2 before p l _ _ pulled | case3 before p l _ _ _ pulled =>
      cases eq
      apply (comes_pull pulled Pull.noConfusion Pull.noConfusion).map
      · intro c c' took
        rw [collectOnto_eq, took]
      · exact fun c => waits before p _
  | case4 | case5 =>
      cases eq
      exact absurd rfl came

end Producer

variable {ω : Type}

theorem Program.comes_run {program : Program ω} {seen seen' : List ω} {l l' : Link}
    {verdict : Verdict} (eq : program.run seen l = (verdict, seen', l')) (came : verdict ≠ .stuck) :
    Comes (·.1 = .stuck) (fun c => program.run seen { l with clock := c })
      (fun c => (verdict, seen', { l' with clock := c })) := by
  induction program generalizing seen l with
  | respond | fail | panic =>
      cases eq
      exact .now fun _ => rfl
  | note what rest ih => exact ih eq
  | pause ms rest ih =>
      rcases waited : l.clock.waitUntil (l.clock.now + ms) with ⟨awake, c₁⟩
      rw [run, Link.waitUntil, waited] at eq
      cases awake with
      | false =>
          cases eq
          exact absurd rfl came
      | true =>
          apply (Comes.wait (· + ms)).behind (ih eq)
          · intro c c' awake
            rw [run, Link.waitUntil, awake]
          · intro c early
            rcases asleep : c.waitUntil (c.now + ms) with ⟨_ | _, c₂⟩
            · rw [run, Link.waitUntil, asleep]
            · rw [asleep] at early
              cases early
  | pull rest ih =>
      have waits : ∀ c, ({ l with clock := c }.readPiece).1 = .stuck →
          ((Program.pull rest).run seen { l with clock := c }).1 = .stuck := by
        intro c stuck
        rcases read : { l with clock := c }.readPiece with ⟨answer, l₁⟩
        rw [read] at stuck
        cases stuck
        rw [run, read]
      rcases read : l.readPiece with ⟨answer, l₁⟩
      rw [run, read] at eq
      cases answer with
      | stuck =>
          cases eq
          exact absurd rfl came
      | ok piece =>
          apply (Link.comes_readPiece read (Outcome.ok_ne_stuck _)).behind (ih _ eq) _ waits
          intro c c' took
          rw [run, took]
      | error e =>
          apply (Link.comes_readPiece read (Outcome.error_ne_stuck _)).behind (ih _ eq) _ waits
          intro c c' took
          rw [run, took]
  | collect rest ih =>
      have waits : ∀ c, (Producer.incoming.collect { l with clock := c }).1 = .stuck →
          ((Program.collect rest).run seen { l with clock := c }).1 = .stuck := by
        intro c stuck
        rcases read : Producer.incoming.collect { l with clock := c } with ⟨answer, l₁⟩
        rw [read] at stuck
        cases stuck
        rw [run, read]
      rcases read : Producer.incoming.collect l with ⟨answer, l₁⟩
      rw [run, read] at eq
      cases answer with
      | stuck =>
          cases eq
          exact absurd rfl came
      | ok b =>
          apply (Producer.comes_collectOnto read (Outcome.ok_ne_stuck _)).behind (ih _ eq) _ waits
          intro c c' took
          rw [run, Producer.collect, took]
      | error e =>
          apply (Producer.comes_collectOnto read (Outcome.error_ne_stuck _)).behind (ih _ eq) _ waits
          intro c c' took
          rw [run, Producer.collect, took]

def Session.limited (limit : Nat) (s : Session ω) : Session ω :=
  { s with link := s.link.limited limit }

namespace Server

variable {server : Server ω} {s : Session ω}

theorem comes_respond {head : RequestHead} {framing : Framing} {seen seen' : List ω} {l l' : Link}
    {r : Response} (eq : server.respond head framing seen l = (some r, seen', l')) :
    Comes (·.1 = none) (fun c => server.respond head framing seen { l with clock := c })
      (fun c => (some r, seen', { l' with clock := c })) := by
  rw [respond] at eq
  rcases found : server.routes.find? head.method head.path with _ | ⟨handler, parameters⟩
  · rw [found] at eq
    cases eq
    apply Comes.now
    intro c
    rw [respond, found]
  · rw [found] at eq
    simp only at eq
    rcases ran : (handler ⟨head, parameters, Request.bodyOf framing⟩).run seen l with
      ⟨verdict, seen₁, l₁⟩
    rw [ran] at eq
    have came : verdict ≠ .stuck := by
      rintro rfl
      cases eq
    apply (Program.comes_run ran came).map
    · intro c c' took
      rw [respond, found]
      simp only [took]
      cases verdict <;> cases eq <;> rfl
    · intro c waits
      rcases took : (handler ⟨head, parameters, Request.bodyOf framing⟩).run seen { l with clock := c }
        with ⟨verdict, seen₂, l₂⟩
      rw [took] at waits
      cases waits
      rw [respond, found]
      simp only [took]

/-- The two requests are handled in the same way, under two limits of the clock. -/
structure Handling.Agrees (h : server.Handling s) (limit : Nat)
    (h' : server.Handling (s.limited limit)) : Prop where
  head : h'.head = h.head
  request : h'.request = h.request
  framing : h'.framing = h.framing
  response : h'.response = h.response
  seen : h'.seen = h.seen
  link : h'.link = h.link.limited limit

/-- A request that is handled under one limit is handled under every later one. -/
theorem Handling.limited (h : server.Handling s) :
    ∃ moment, ∀ limit, moment ≤ limit → ∃ h', Handling.Agrees h limit h' := by
  obtain ⟨head, opened, request, framing, response, seen, link, read, parsed, framed, responded⟩ := h
  have came : ¬ ({ s.link with clock := s.link.clock }.readHead server.config.maxHeadSize).1 =
      .stuck := by
    rw [show { s.link with clock := s.link.clock } = s.link from rfl, read]
    exact nofun
  have answered : ¬ (server.respond request framing s.seen
      { opened.expect framing server.config.readBufferSize with clock := opened.clock }).1 =
        none := by
    rw [show { opened.expect framing server.config.readBufferSize with clock := opened.clock } =
      opened.expect framing server.config.readBufferSize from rfl, responded]
    exact nofun
  obtain ⟨first, _, here, reads⟩ :=
    (Link.comes_readHead read (Outcome.ok_ne_stuck _)).limited (c := s.link.clock) came
  obtain ⟨second, _, there, responds⟩ :=
    (comes_respond responded).limited (c := opened.clock) answered
  have clock : opened.clock = s.link.clock.reached first :=
    congrArg (·.2.clock) (read.symm.trans here)
  have clock' : link.clock = opened.clock.reached second :=
    congrArg (·.2.2.clock) (responded.symm.trans there)
  refine ⟨max first second, fun limit late => ?_⟩
  have read' : (s.link.limited limit).readHead server.config.maxHeadSize =
      (.ok (some head), opened.limited limit) := by
    rw [Link.limited, reads limit (by omega), ← clock]
    rfl
  have responded' : server.respond request framing s.seen
      ((opened.limited limit).expect framing server.config.readBufferSize) =
        (some response, seen, link.limited limit) := by
    have responds := responds limit (by omega)
    rw [← clock'] at responds
    exact responds
  exact ⟨⟨head, opened.limited limit, request, framing, response, seen, link.limited limit, read',
    parsed, framed, responded'⟩, rfl, rfl, rfl, rfl, rfl, rfl⟩

end Server

end HttpExchange
