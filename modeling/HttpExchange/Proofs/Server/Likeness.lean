import HttpExchange.Proofs.Body.Alike
import HttpExchange.Proofs.Server.Place

/-!
Connections that are served alike. What a handler, a response and a whole exchange come to follows
from the reads and the writes that they make, and so links that are alike are served alike. How many
exchanges a server has had before shows only in the numbers that it gives to them.
-/

namespace HttpExchange

variable {ω : Type}

def ServerError.later (before : Nat) : ServerError → ServerError
  | aborted exchange e => aborted (before + exchange) e
  | e => e

theorem ServerError.later_zero (e : ServerError) : e.later 0 = e := by
  cases e with
  | aborted exchange e => exact congrArg (ServerError.aborted · e) (Nat.zero_add exchange)
  | parse | io | notFound | internal | json | body | route => rfl

theorem ServerError.mapError_later_zero (out : Outcome ServerError Unit) :
    out.mapError (.later 0) = out := by
  cases out with
  | ok _ | stuck => rfl
  | error e => exact congrArg Outcome.error (later_zero e)

def Server.Step.later (before : Nat) : Step → Step
  | proceed => proceed
  | finished result => finished (result.mapError (.later before))

/-- The same counts on top of those before. -/
def Counters.behind (before c : Counters) : Counters :=
  ⟨before.issued + c.issued, before.completed + c.completed, before.aborted + c.aborted⟩

theorem Counters.zero_behind (c : Counters) : ({} : Counters).behind c = c := by
  simp only [behind, Nat.zero_add]

/-- The second session has had these exchanges and notes before. -/
structure Session.Later (before : Counters) (old : List ω) (s s' : Session ω) : Prop where
  counters : s'.counters = before.behind s.counters
  seen : s'.seen = s.seen ++ old

theorem Exchange.id_advance (x : Exchange) (next : Phase) : (x.advance next).2.id = x.id := by
  unfold advance
  split <;> rfl

variable {S : Link → Link → Prop} {W : Writer → Writer → Prop} {l l' l₁ : Link}
  {before : Counters} {old : List ω}

theorem Program.run_alike (old : List ω) (like : Link.Likeness S) {program : Program ω} {seen seen₁ : List ω}
    {verdict : Verdict} (alike : S l l') (eq : program.run seen l = (verdict, seen₁, l₁)) :
    ∃ l₁', program.run (seen ++ old) l' = (verdict, seen₁ ++ old, l₁') ∧ S l₁ l₁' := by
  induction program generalizing seen l l' with
  | respond | fail | panic =>
      cases eq
      exact ⟨l', rfl, alike⟩
  | note what rest ih => exact ih alike eq
  | pause ms rest ih =>
      rcases waited : l.waitUntil (l.clock.now + ms) with ⟨awake, l₂⟩
      obtain ⟨l₂', waited', later⟩ := like.waitUntil alike waited
      rw [run, waited] at eq
      rw [run, like.clock alike, waited']
      cases awake with
      | true => exact ih later eq
      | false =>
          cases eq
          exact ⟨l₂', rfl, later⟩
  | pull rest ih =>
      rcases read : l.readPiece with ⟨answer, l₂⟩
      obtain ⟨l₂', read', later⟩ := like.readPiece alike read
      rw [run, read] at eq
      rw [run, read']
      cases answer with
      | ok piece => exact ih _ later eq
      | error e => exact ih _ later eq
      | stuck =>
          cases eq
          exact ⟨l₂', rfl, later⟩
  | collect rest ih =>
      rcases read : Producer.incoming.collect l with ⟨answer, l₂⟩
      obtain ⟨l₂', read', later⟩ := like.collectOnto alike read
      have same : Producer.incoming.collect l' = (answer, l₂') := read'
      rw [run, read] at eq
      rw [run, same]
      cases answer with
      | ok b => exact ih _ later eq
      | error e => exact ih _ later eq
      | stuck =>
          cases eq
          exact ⟨l₂', rfl, later⟩

namespace Response

variable {r : Response} {idle : Option Nat}

theorem deliver_alike (like : Link.Likeness S) (alike : S l l') {out : Outcome BodyError Nat}
    {d : Delivery} (eq : r.deliver idle l = (out, d, l₁)) :
    ∃ l₁', r.deliver idle l' = (out, d, l₁') ∧ S l₁ l₁' := by
  rcases taken : r.body.take with ⟨p | e, body⟩
  · rw [deliver, taken] at eq
    rw [deliver, taken]
    cases eq
    exact ⟨l', rfl, alike⟩
  · rw [deliver, taken] at eq
    rw [deliver, taken]
    exact like.run alike eq

theorem send_alike (like : Link.Likeness S) (alike : S l l') {x x' x₁ : Exchange} {issued : Nat}
    (number : x'.id = issued + x.id) {method : Method} {close : Bool}
    {out : Outcome ServerError Unit} (eq : r.send x method close idle l = (out, x₁, l₁)) :
    ∃ x₁' l₁', r.send x' method close idle l' = (out.mapError (.later issued), x₁', l₁') ∧
      S l₁ l₁' := by
  rcases sent : l.send (r.head close) with ⟨answer, l₂⟩
  obtain ⟨l₂', sent', alike₂⟩ := like.send alike sent
  rw [send, sent] at eq
  rw [send, sent']
  rcases answer with _ | e | _
  · rcases delivered : (r.strip method).deliver idle l₂ with ⟨answer, d, l₃⟩
    obtain ⟨l₃', delivered', alike₃⟩ := deliver_alike like alike₂ delivered
    simp only [delivered] at eq
    simp only [delivered']
    rcases answer with _ | e | _
    · cases eq
      exact ⟨_, l₃', rfl, alike₃⟩
    · cases eq
      let streaming := ((x'.advance .headSent).2.advance .streaming).2
      refine ⟨streaming.abort.2, l₃'.shutdown, ?_, like.shutdown alike₃⟩
      simp only [Exchange.id_advance, number]
      rfl
    · cases eq
      exact ⟨_, l₃', rfl, alike₃⟩
  · cases eq
    exact ⟨_, l₂', rfl, alike₂⟩
  · cases eq
    exact ⟨_, l₂', rfl, alike₂⟩

end Response

namespace Server

variable {server : Server ω} {s s' s₁ : Session ω} {head : RequestHead} {framing : Framing}
  {step : Step}

theorem respond_alike (old : List ω) (like : Link.Likeness S) (alike : S l l') {seen seen₁ : List ω}
    {out : Option Response} (eq : server.respond head framing seen l = (out, seen₁, l₁)) :
    ∃ l₁', server.respond head framing (seen ++ old) l' = (out, seen₁ ++ old, l₁') ∧ S l₁ l₁' := by
  unfold respond at eq ⊢
  rcases found : server.routes.find? head.method head.path with _ | ⟨handler, parameters⟩
  · rw [found] at eq
    cases eq
    exact ⟨l', rfl, alike⟩
  · rcases ran : (handler ⟨head, parameters, Request.bodyOf framing⟩).run seen l with
      ⟨verdict, seen₂, l₂⟩
    obtain ⟨l₂', ran', later⟩ := Program.run_alike old like alike ran
    rw [found] at eq
    simp only [ran] at eq
    simp only [ran']
    cases verdict with
    | response r | failed e | panicked | stuck =>
        cases eq
        exact ⟨l₂', rfl, later⟩

theorem settle_alike (like : Link.Likeness S) (alike : S s.link s'.link)
    (later : s.Later before old s') (eq : server.settle head framing s = (step, s₁)) :
    ∃ s₁', server.settle head framing s' = (step.later before.issued, s₁') ∧
      S s₁.link s₁'.link ∧ s₁.Later before old s₁' := by
  unfold settle isLeftOver at eq ⊢
  rw [like.body alike]
  split at eq
  · next ends =>
      rw [if_pos ends]
      cases eq
      exact ⟨_, rfl, like.shutdown alike, later.counters, later.seen⟩
  · next goes =>
      rw [if_neg goes]
      cases eq
      exact ⟨s', rfl, alike, later⟩

theorem exchange_alike (like : Link.Likeness S)
    (alike : S (s.link.expect framing server.config.readBufferSize)
      (s'.link.expect framing server.config.readBufferSize))
    (later : s.Later before old s') {x x' : Exchange} (number : x'.id = before.issued + x.id)
    (eq : server.exchange head framing x s = (step, s₁)) :
    ∃ s₁', server.exchange head framing x' s' = (step.later before.issued, s₁') ∧
      S s₁.link s₁'.link ∧ s₁.Later before old s₁' := by
  rcases responded : server.respond head framing s.seen
    (s.link.expect framing server.config.readBufferSize) with ⟨out, seen, l⟩
  obtain ⟨l', responded', alike₁⟩ := respond_alike old like alike responded
  unfold exchange at eq ⊢
  rw [responded] at eq
  rw [later.seen, responded']
  cases out with
  | none =>
      cases eq
      exact ⟨_, rfl, alike₁, later.counters, rfl⟩
  | some r =>
      rcases sent : r.send x head.method (server.closes head) server.config.bodyIdleTimeout l with
        ⟨answer, x₁, l₂⟩
      obtain ⟨x₁', l₂', sent', alike₂⟩ := Response.send_alike like alike₁ number sent
      simp only [sent] at eq
      simp only [sent']
      rcases answer with _ | e | _
      · have later₂ : Session.Later before old ⟨l₂, s.counters.complete, seen⟩
            ⟨l₂', s'.counters.complete, seen ++ old⟩ := by
          rw [later.counters]
          exact ⟨rfl, rfl⟩
        exact settle_alike (s := ⟨l₂, s.counters.complete, seen⟩) like alike₂ later₂ eq
      · cases eq
        refine ⟨_, rfl, alike₂, ?_, rfl⟩
        rw [later.counters]
        rfl
      · cases eq
        exact ⟨_, rfl, alike₂, later.counters, rfl⟩

/-- What a session has had before makes no difference to how a request is answered. -/
theorem answer_alike (like : Writer.Likeness W) (alike : Link.Alike W s.link s'.link)
    (later : s.Later before old s') {bytes : Bytes} (eq : server.answer bytes s = (step, s₁)) :
    ∃ s₁', server.answer bytes s' = (step.later before.issued, s₁') ∧
      Link.Alike W s₁.link s₁'.link ∧ s₁.Later before old s₁' := by
  have counted : s'.counters.issue = before.behind s.counters.issue := by
    rw [later.counters]
    rfl
  have aborted : s.issue.abort.Later before old s'.issue.abort :=
    ⟨congrArg Counters.abort counted, later.seen⟩
  unfold answer at eq ⊢
  cases parsed : RequestHead.parse bytes with
  | error e =>
      rw [parsed] at eq
      cases eq
      exact ⟨_, rfl, alike.shutdown like, aborted⟩
  | ok head =>
      rw [parsed] at eq
      cases framed : Framing.ofRequest head with
      | error e =>
          simp only [framed] at eq
          cases eq
          refine ⟨s'.issue.abort, ?_, alike.shutdown like, aborted⟩
          simp only [framed]
          rfl
      | ok framing =>
          simp only [framed] at eq ⊢
          have issued : s.issue.Later before old s'.issue := ⟨counted, later.seen⟩
          have number : s'.exchange.id = before.issued + s.exchange.id := by
            rw [Session.exchange, Session.exchange, later.counters]
            rfl
          have ahead : Link.AlikeIn Decoder.InFront W
              (s.issue.link.expect framing server.config.readBufferSize)
              (s'.issue.link.expect framing server.config.readBufferSize) :=
            alike.expect (Framing.ofRequest_ne_untilClose framed) _
          obtain ⟨s₁', same, inside, later'⟩ := exchange_alike
            (Link.likeness_alikeIn Decoder.likeness_inFront like) ahead issued number eq
          exact ⟨s₁', same, inside.alike, later'⟩

/-- Connections that are alike are served alike, whatever the server had served before. -/
theorem serve_alike (like : Writer.Likeness W) (alike : Link.Alike W s.link s'.link)
    (later : s.Later before old s') {out : Outcome ServerError Unit}
    (eq : server.serve s = (out, s₁)) :
    ∃ s₁', server.serve s' = (out.mapError (.later before.issued), s₁') ∧
      Link.Alike W s₁.link s₁'.link ∧ s₁.Later before old s₁' := by
  fun_induction serve server s generalizing s' with
  | case1 s link read =>
      obtain ⟨link', read', alike'⟩ := alike.readHead read
      cases eq
      refine ⟨{ s' with link := link' }, ?_, alike', later.counters, later.seen⟩
      rw [serve_eq, read']
      rfl
  | case2 s e link read =>
      obtain ⟨link', read', alike'⟩ := alike.readHead read
      cases eq
      refine ⟨({ s' with link := link' } : Session ω).abort, ?_, alike'.shutdown like, ?_, later.seen⟩
      · rw [serve_eq, read']
        rfl
      · exact congrArg Counters.abort later.counters
  | case3 s link read =>
      obtain ⟨link', read', alike'⟩ := alike.readHead read
      cases eq
      refine ⟨{ s' with link := link' }, ?_, alike', later.counters, later.seen⟩
      rw [serve_eq, read']
      rfl
  | case4 s head link read result s₂ answered =>
      obtain ⟨link', read', alike'⟩ := alike.readHead read
      have later' : Session.Later before old { s with link } { s' with link := link' } :=
        ⟨later.counters, later.seen⟩
      obtain ⟨s₂', answered', alike₂, later₂⟩ := answer_alike like alike' later' answered
      cases eq
      refine ⟨s₂', ?_, alike₂, later₂⟩
      rw [serve_eq, read']
      simp only [answered', Step.later]
  | case5 s head link read s₂ answered ih =>
      obtain ⟨link', read', alike'⟩ := alike.readHead read
      have later' : Session.Later before old { s with link } { s' with link := link' } :=
        ⟨later.counters, later.seen⟩
      obtain ⟨s₂', answered', alike₂, later₂⟩ := answer_alike like alike' later' answered
      obtain ⟨s₁', rest, alike₁, later₁⟩ := ih alike₂ later₂ eq
      refine ⟨s₁', ?_, alike₁, later₁⟩
      rw [serve_eq, read']
      simp only [answered', Step.later]
      exact rest

end Server

end HttpExchange
