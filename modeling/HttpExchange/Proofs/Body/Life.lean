import HttpExchange.Proofs.Body.Order
import HttpExchange.Proofs.Body.Report

/-!
The whole life of a delivery: its head may be sent ahead, it may be cancelled or aborted, and it may
be run, in any order and as often as anyone likes. Whatever is called, the wire shows one message at
most, and the chunks of one body.
-/

namespace HttpExchange

namespace Delivery

/-- What may be called on a delivery. A run may be cancelled at a moment, or by its own producer. -/
inductive Act where
  | commit
  | cancel
  | abort
  | run (patience : Patience) (p : Producer)
  deriving DecidableEq, Repr

/-- A call, with the link as it is then; but the writer is the delivery's own. A run that is stuck
when its clock comes to the limit is given up. -/
structure Call where
  act : Act
  link : Link
  deriving DecidableEq, Repr

inductive Answer where
  | silent
  | committed (out : Outcome BodyError Unit)
  | ran (out : Outcome BodyError Nat)

structure Entry where
  act : Act
  answer : Answer
  events : List Event

def commitHistory (d : Delivery) (l : Link) : List Event :=
  match d.head with
  | none => []
  | some head => l.sending head

def Call.perform (c : Call) (d : Delivery) (w : Writer) : Entry × Delivery × Writer :=
  let l : Link := { c.link with writer := w }
  match c.act with
  | .commit =>
    let (out, d', l') := d.commit l
    (⟨c.act, .committed out, d.commitHistory l⟩, d', l'.writer)
  | .cancel => (⟨c.act, .silent, []⟩, d.cancel, w)
  | .abort =>
    let (d', l') := d.abort l
    (⟨c.act, .silent, []⟩, d', l'.writer)
  | .run patience p =>
    let (out, d', l') := d.run patience p l
    (⟨c.act, .ran out, d.history patience p l⟩, d', l'.writer)

def live : List Call → Delivery → Writer → List Entry × Delivery × Writer
  | [], d, w => ([], d, w)
  | c :: calls, d, w =>
    let (entry, d, w) := c.perform d w
    let (entries, d, w) := live calls d w
    (entry :: entries, d, w)

namespace Entry

/-- Whether a call leaves the delivery failed: an abort, or a run without a number of chunks. -/
def Fails (e : Entry) : Prop := e.act = .abort ∨ ∃ out, e.answer = .ran out ∧ ∀ n, out ≠ .ok n

/-- Whether the call is a commit that was given up before it had come to anything. -/
def dropsCommit (e : Entry) : Bool :=
  match e.answer with
  | .committed .stuck => true
  | _ => false

/-- If the call is a run, it does nothing and gives only this. -/
def Repeats (out : Outcome BodyError Nat) (e : Entry) : Prop :=
  ∀ given, e.answer = .ran given → given = out ∧ e.events = []

end Entry

def events (entries : List Entry) : List Event := entries.flatMap Entry.events

theorem events_cons (e : Entry) (entries : List Entry) :
    events (e :: entries) = e.events ++ events entries := List.flatMap_cons

variable {f : Framing} {head : Option Bytes} {d d' : Delivery} {w w' : Writer} {c : Call}
  {calls : List Call} {e : Entry} {entries before after : List Entry} {seen : List Event} {n : Nat}

inductive Calls (d : Delivery) (w : Writer) : Entry → Delivery → Writer → Prop where
  | cancel : Calls d w ⟨.cancel, .silent, []⟩ d.cancel w
  | abort {w' : Writer} (output : w'.output = w.output) :
      Calls d w ⟨.abort, .silent, []⟩ { d with stage := .failed } w'
  | committed (gone : d.head = none) : Calls d w ⟨.commit, .committed (.ok ()), []⟩ d w
  | commit {head : Bytes} {sent : List Event} {out : Outcome WireError Unit} {w' : Writer}
      (held : d.head = some head) (sends : Sends head sent out)
      (output : w'.output = w.output ++ Event.bytes sent)
      (whole : out ≠ .stuck → Event.bytes sent = head ∨ w'.Broken) :
      Calls d w ⟨.commit, .committed (out.mapError .wire), sent⟩ { d with head := none } w'
  | run (patience : Patience) (p : Producer) {events : List Event} {out : Outcome BodyError Nat}
      {d' : Delivery} {w' : Writer} (runs : Runs d events out d')
      (output : w'.output = w.output ++ Event.bytes events)
      (broken : w.Broken → Event.bytes events = []) :
      Calls d w ⟨.run patience p, .ran out, events⟩ d' w'

theorem calls_of_perform (eq : c.perform d w = (e, d', w')) : Calls d w e d' w' := by
  obtain ⟨act, link⟩ := c
  cases act with
  | cancel =>
      cases eq
      exact .cancel
  | abort =>
      cases eq
      exact .abort (Writer.kept_note w rfl).output
  | run patience p =>
      cases eq
      exact .run patience p (runs_of_run rfl) (output_of_run rfl) fun broken => bytes_of_broken broken
  | commit =>
      let l : Link := { link with writer := w }
      cases held : d.head with
      | none =>
          have same : ({ act := .commit, link } : Call).perform d w =
              (⟨.commit, .committed (.ok ()), []⟩, d, w) := by
            rw [Call.perform]
            simp only [Delivery.commit, commitHistory, held]
          cases same.symm.trans eq
          exact .committed held
      | some head =>
          rcases sent : l.send head with ⟨out, l'⟩
          obtain ⟨sends, shown⟩ := sends_of_send false sent
          have same : ({ act := .commit, link } : Call).perform d w =
              (⟨.commit, .committed (out.mapError .wire), l.sending head⟩, { d with head := none },
                l'.writer) := by
            rw [Call.perform]
            simp only [Delivery.commit, commitHistory, held]
            rw [sent]
          cases same.symm.trans eq
          exact .commit held sends (output_of_shown shown) (send_whole_or_broken sent)

theorem Calls.output (calls : Calls d w e d' w') :
    w'.output = w.output ++ Event.bytes e.events := by
  cases calls with
  | cancel | committed => exact (List.append_nil _).symm
  | abort output => exact output.trans (List.append_nil _).symm
  | commit _ _ output => exact output
  | run _ _ _ output => exact output

theorem Calls.settled (calls : Calls d w e d' w') (past : d.stage ≠ .ready) :
    d'.stage ≠ .ready ∧ Event.Quiet e.events := by
  cases calls with
  | cancel | committed => exact ⟨past, Event.quiet_nil⟩
  | abort => exact ⟨nofun, Event.quiet_nil⟩
  | commit _ sends => exact ⟨past, sends.quiet⟩
  | run _ _ runs =>
      cases runs with
      | refused | repeated => exact ⟨past, Event.quiet_nil⟩
      | unflushed ready | begun ready => exact absurd ready past

/-- A call that makes a demand leaves a delivery that has taken a body. -/
theorem Calls.takes (calls : Calls d w e d' w') (asks : ¬ Event.Quiet e.events) :
    d'.stage ≠ .ready := by
  cases calls with
  | cancel | committed | abort => exact absurd Event.quiet_nil asks
  | commit _ sends => exact absurd sends.quiet asks
  | run _ _ runs =>
      cases runs with
      | refused | repeated => exact absurd Event.quiet_nil asks
      | unflushed => exact nofun
      | begun => exact settle_ne_ready _ _

theorem Calls.refused (calls : Calls d w e d' w') (stage : d.stage = .failed) :
    d'.stage = .failed ∧ e.Repeats (.error .alreadyConsumed) := by
  cases calls with
  | cancel | committed | commit => exact ⟨stage, nofun⟩
  | abort => exact ⟨rfl, nofun⟩
  | run _ _ runs =>
      cases runs with
      | refused =>
          refine ⟨stage, ?_⟩
          intro given same
          cases same
          exact ⟨rfl, rfl⟩
      | repeated other | unflushed other | begun other => cases stage.symm.trans other

theorem Calls.repeated (calls : Calls d w e d' w') (stage : d.stage = .finished) :
    e.Repeats (.ok d.chunks) ∧
      (e.act ≠ .abort → d'.stage = .finished ∧ d'.chunks = d.chunks) := by
  cases calls with
  | cancel | committed | commit => exact ⟨nofun, fun _ => ⟨stage, rfl⟩⟩
  | abort => exact ⟨nofun, fun kept => absurd rfl kept⟩
  | run _ _ runs =>
      cases runs with
      | repeated =>
          refine ⟨?_, fun _ => ⟨stage, rfl⟩⟩
          intro given same
          cases same
          exact ⟨rfl, rfl⟩
      | refused other | unflushed other | begun other => cases stage.symm.trans other

theorem Calls.of_fails (calls : Calls d w e d' w') (fails : e.Fails) : d'.stage = .failed := by
  cases calls with
  | cancel | committed | commit =>
      rcases fails with other | ⟨_, other, _⟩ <;> cases other
  | abort => rfl
  | run _ _ runs =>
      rcases fails with other | ⟨out, same, failed⟩
      · cases other
      · cases same
        cases runs with
        | refused stage => exact stage
        | repeated => exact absurd rfl (failed _)
        | unflushed => rfl
        | begun => exact (refuses_settle _ failed).1

theorem Calls.of_ok (calls : Calls d w e d' w') (given : e.answer = .ran (.ok n)) :
    d'.stage = .finished ∧ d'.chunks = n := by
  cases calls with
  | cancel | committed | commit | abort => cases given
  | run _ _ runs =>
      obtain rfl := Answer.ran.inj given
      generalize told : Outcome.ok n = out at runs
      cases runs with
      | refused => cases told
      | repeated stage =>
          cases told
          exact ⟨stage, rfl⟩
      | @unflushed _ out failed =>
          cases out with
          | ok _ => exact absurd rfl failed
          | error e | stuck => cases told
      | begun stage unfolds =>
          subst told
          exact ⟨rfl, unfolds.chunks⟩

/-- What is known behind some events: they are orderly, a head that is held back was not begun, and
as long as no body was taken, the head is all that can be on the wire. -/
structure Alive (f : Framing) (head : Option Bytes) (seen : List Event) (d : Delivery)
    (w : Writer) : Prop where
  orderly : Orderly f (head.getD []) seen
  held : d.head = none ∨ d.head = head ∧ Event.bytes seen = []
  unasked : d.stage = .ready → d.framing = f ∧ Event.Quiet seen
  opened : d.stage = .ready → d.head = none →
    Event.bytes seen = head.getD [] ∨ Event.bytes seen <+: head.getD [] ∧ w.Broken

theorem alive_start (f : Framing) (head : Option Bytes) (w : Writer) :
    Alive f head [] { framing := f, head } w := by
  refine ⟨orderly_of_silent rfl, .inr ⟨rfl, rfl⟩, fun _ => ⟨rfl, nofun⟩, ?_⟩
  intro _ none
  cases none
  exact .inl rfl

namespace Alive

theorem within (alive : Alive f head seen d w) (ready : d.stage = .ready) :
    Event.bytes seen <+: head.getD [] := by
  rcases alive.held with gone | ⟨_, nothing⟩
  · rcases alive.opened ready gone with all | ⟨part, _⟩
    · exact all ▸ List.prefix_refl _
    · exact part
  · exact nothing ▸ List.nil_prefix

/-- Nothing but the delivery changes, and it is not taken for one that has taken no body. -/
theorem keep (alive : Alive f head seen d w) (same : d'.head = d.head)
    (past : d'.stage ≠ .ready) : Alive f head seen d' w' :=
  ⟨alive.orderly, same ▸ alive.held, fun ready => absurd ready past, fun ready => absurd ready past⟩

/-- A head that is held back is the only thing that can be on the wire once it is sent. -/
theorem bytes_commit (alive : Alive f head seen d w) {held : Bytes} (there : d.head = some held)
    (sent : List Event) : head = some held ∧ Event.bytes (seen ++ sent) = Event.bytes sent := by
  rcases alive.held with gone | ⟨same, nothing⟩
  · cases gone.symm.trans there
  · exact ⟨same.symm.trans there, by rw [Event.bytes_append, nothing, List.nil_append]⟩

theorem orderly_commit (alive : Alive f head seen d w) {held : Bytes} (there : d.head = some held)
    {sent : List Event} {out : Outcome WireError Unit} (sends : Sends held sent out) :
    Orderly f (head.getD []) (seen ++ sent) := by
  obtain ⟨rfl, bytes⟩ := alive.bytes_commit there sent
  apply orderly_of_head
  rw [bytes]
  exact sends.bytes.1

theorem commit (alive : Alive f head seen d w) {held : Bytes} (there : d.head = some held)
    {sent : List Event} {out : Outcome WireError Unit} (sends : Sends held sent out)
    (whole : Event.bytes sent = held ∨ w'.Broken) :
    Alive f head (seen ++ sent) { d with head := none } w' := by
  refine ⟨alive.orderly_commit there sends, .inl rfl, ?_, ?_⟩
  · intro ready
    obtain ⟨framing, quiet⟩ := alive.unasked ready
    refine ⟨framing, fun e member => ?_⟩
    rcases List.mem_append.mp member with before | within
    · exact quiet e before
    · exact sends.quiet e within
  · intro _ _
    obtain ⟨rfl, bytes⟩ := alive.bytes_commit there sent
    rw [bytes]
    exact whole.imp id fun broken => ⟨sends.bytes.1, broken⟩

theorem begin (alive : Alive f head seen d w) (ready : d.stage = .ready) {events : List Event}
    {out : Outcome BodyError Nat} (unfolds : Unfolds d events out d')
    (broken : w.Broken → Event.bytes events = []) :
    Alive f head (seen ++ .flush (.ok ()) :: events) (d'.settle out) w' := by
  obtain ⟨rfl, quiet⟩ := alive.unasked ready
  have bytes : Event.bytes (seen ++ .flush (.ok ()) :: events) =
      Event.bytes seen ++ Event.bytes events := Event.bytes_append _ _
  have past := settle_ne_ready d' out
  refine ⟨?_, ?_, fun ready => absurd ready past, fun ready => absurd ready past⟩
  · -- the flush in front writes nothing
    have first : Event.bytes (seen ++ [.flush (.ok ())]) = Event.bytes seen := by
      rw [Event.bytes_append]
      exact List.append_nil _
    have unasked : Event.chunks (seen ++ [.flush (.ok ())]) = [] := by
      rw [Event.chunks_append, quiet.chunks]
      rfl
    have earlier : Orderly d.framing (head.getD []) (seen ++ [.flush (.ok ())]) :=
      orderly_of_head (first ▸ alive.within ready)
    have whole : Event.bytes seen ++ d.pending = head.getD [] →
        Orderly d.framing (head.getD []) (seen ++ .flush (.ok ()) :: events) := by
      intro split
      have sent : Event.bytes (seen ++ [.flush (.ok ())]) ++ d.pending =
          head.getD [] ++ d.framing.frames (filled (Event.chunks (seen ++ [.flush (.ok ())]))) := by
        rw [first, split, unasked]
        exact (List.append_nil _).symm
      have joint := earlier.behind sent unfolds.orderly
      rwa [List.append_assoc] at joint
    cases held : d.head with
    | some h =>
        rcases alive.held with gone | ⟨same, nothing⟩
        · cases gone.symm.trans held
        · apply whole
          rw [nothing, pending, same]
          rfl
    | none =>
        rcases alive.opened ready held with all | ⟨part, broke⟩
        · apply whole
          rw [all, pending_of_head_none held, List.append_nil]
        · apply orderly_of_head
          rw [bytes, broken broke, List.append_nil]
          exact part
  · rcases unfolds.head_kept with gone | ⟨same, silent⟩
    · exact .inl gone
    · have head_settle : (d'.settle out).head = d.head := same
      rw [head_settle, bytes, silent, List.append_nil]
      exact alive.held

theorem call (alive : Alive f head seen d w) (calls : Calls d w e d' w')
    (awaited : e.dropsCommit = false) : Alive f head (seen ++ e.events) d' w' := by
  cases calls with
  | cancel =>
      rw [List.append_nil]
      exact ⟨alive.orderly, alive.held, alive.unasked, alive.opened⟩
  | abort =>
      rw [List.append_nil]
      exact alive.keep rfl nofun
  | committed =>
      rw [List.append_nil]
      exact alive
  | @commit _ _ out _ there sends _ whole =>
      refine alive.commit there sends (whole ?_)
      rintro rfl
      cases awaited
  | run _ _ runs output broken =>
      cases runs with
      | refused stage | repeated stage =>
          rw [List.append_nil]
          exact alive.keep rfl (stage ▸ nofun)
      | @unflushed ready out =>
          have quiet : Event.bytes (seen ++ [.flush out]) = Event.bytes seen := by
            rw [Event.bytes_append]
            exact List.append_nil _
          refine ⟨orderly_of_head (quiet ▸ alive.within ready), ?_, nofun, nofun⟩
          rw [quiet]
          exact alive.held
      | begun ready unfolds => exact alive.begin ready unfolds broken

/-- Even a commit that is given up leaves the wire in order; but nothing may come behind it. -/
theorem orderly_call (alive : Alive f head seen d w) (calls : Calls d w e d' w') :
    Orderly f (head.getD []) (seen ++ e.events) := by
  cases drops : e.dropsCommit with
  | false => exact (alive.call calls drops).orderly
  | true =>
      cases calls with
      | commit there sends => exact alive.orderly_commit there sends
      | cancel | abort | committed | run => cases drops

end Alive

/-- One call after another, with what each of them can do. -/
inductive Lives : Delivery → Writer → List Entry → Delivery → Writer → Prop where
  | none (d : Delivery) (w : Writer) : Lives d w [] d w
  | more {d d₁ d' : Delivery} {w w₁ w' : Writer} {e : Entry} {entries : List Entry}
      (call : Calls d w e d₁ w₁) (rest : Lives d₁ w₁ entries d' w') :
      Lives d w (e :: entries) d' w'

theorem lives_live (calls : List Call) (d : Delivery) (w : Writer) :
    Lives d w (live calls d w).1 (live calls d w).2.1 (live calls d w).2.2 := by
  induction calls generalizing d w with
  | nil => exact .none d w
  | cons c calls ih => exact .more (calls_of_perform rfl) (ih _ _)

namespace Lives

theorem output (lives : Lives d w entries d' w') :
    w'.output = w.output ++ Event.bytes (events entries) := by
  induction lives with
  | none d w => exact (List.append_nil _).symm
  | more call rest ih =>
      rw [ih, call.output, List.append_assoc, ← Event.bytes_append, events_cons]

theorem split (lives : Lives d w (before ++ after) d' w') :
    ∃ d₁ w₁, Lives d w before d₁ w₁ ∧ Lives d₁ w₁ after d' w' := by
  induction before generalizing d w with
  | nil => exact ⟨d, w, .none d w, lives⟩
  | cons e before ih =>
      cases lives with
      | more call rest =>
          obtain ⟨d₁, w₁, first, last⟩ := ih rest
          exact ⟨d₁, w₁, .more call first, last⟩

theorem alive (lives : Lives d w entries d' w') (alive : Alive f head seen d w)
    (awaited : ∀ e ∈ entries, e.dropsCommit = false) :
    Alive f head (seen ++ events entries) d' w' := by
  induction lives generalizing seen with
  | none d w =>
      rw [events, List.flatMap_nil, List.append_nil]
      exact alive
  | more call rest ih =>
      rw [events_cons, ← List.append_assoc]
      have here := alive.call call (awaited _ List.mem_cons_self)
      exact ih here fun e member => awaited e (List.mem_cons_of_mem _ member)

theorem orderly (lives : Lives d w entries d' w') (alive : Alive f head seen d w)
    (awaited : ∀ e ∈ entries.dropLast, e.dropsCommit = false) :
    Orderly f (head.getD []) (seen ++ events entries) := by
  rcases List.eq_nil_or_concat entries with rfl | ⟨front, last, concat⟩
  · rw [events, List.flatMap_nil, List.append_nil]
    exact alive.orderly
  · rw [List.concat_eq_append] at concat
    subst concat
    rw [List.dropLast_concat] at awaited
    obtain ⟨d₁, w₁, first, here⟩ := lives.split
    cases here with
    | more call _ =>
        rw [events, List.flatMap_append, List.flatMap_singleton, ← List.append_assoc]
        exact (first.alive alive awaited).orderly_call call

theorem settled (lives : Lives d w entries d' w') (past : d.stage ≠ .ready) :
    ∀ e ∈ entries, Event.Quiet e.events := by
  induction lives with
  | none => exact List.forall_mem_nil _
  | more call rest ih =>
      obtain ⟨still, quiet⟩ := call.settled past
      intro e member
      rcases List.mem_cons.mp member with rfl | later
      · exact quiet
      · exact ih still e later

theorem refused (lives : Lives d w entries d' w') (stage : d.stage = .failed) :
    ∀ e ∈ entries, e.Repeats (.error .alreadyConsumed) := by
  induction lives with
  | none => exact List.forall_mem_nil _
  | more call rest ih =>
      obtain ⟨still, repeats⟩ := call.refused stage
      intro e member
      rcases List.mem_cons.mp member with rfl | later
      · exact repeats
      · exact ih still e later

theorem repeated (lives : Lives d w entries d' w') (stage : d.stage = .finished)
    (kept : ∀ e ∈ entries, e.act ≠ .abort) : d'.stage = .finished ∧ d'.chunks = d.chunks := by
  induction lives with
  | none => exact ⟨stage, rfl⟩
  | more call rest ih =>
      obtain ⟨still, same⟩ := (call.repeated stage).2 (kept _ List.mem_cons_self)
      obtain ⟨finished, count⟩ := ih still fun e member => kept e (List.mem_cons_of_mem _ member)
      exact ⟨finished, count.trans same⟩

end Lives

/-- What holds of the whole life of a delivery. -/
structure Ordered (f : Framing) (head : Bytes) (entries : List Entry) : Prop where
  /-- At each point the wire shows a beginning of one message, whose end comes behind the end of
  the producer. -/
  wire : Orderly f head (events entries)
  /-- Of all calls only one makes demands. -/
  single : ∀ before e after, entries = before ++ e :: after → ¬ Event.Quiet e.events →
    ∀ e' ∈ after, Event.Quiet e'.events
  /-- Behind a run that failed or was given up, and behind an abort, runs are refused. -/
  refused : ∀ before e after, entries = before ++ e :: after → e.Fails →
    ∀ e' ∈ after, e'.Repeats (.error .alreadyConsumed)
  /-- Behind a run in order, and before an abort, runs give the same number of chunks. -/
  repeated : ∀ before e between e' after n, entries = before ++ e :: (between ++ e' :: after) →
    e.answer = .ran (.ok n) → (∀ x ∈ between, x.act ≠ .abort) → e'.Repeats (.ok n)

theorem Lives.ordered (lives : Lives d w entries d' w') (alive : Alive f head [] d w)
    (awaited : ∀ e ∈ entries.dropLast, e.dropsCommit = false) :
    Ordered f (head.getD []) entries := by
  refine ⟨lives.orderly alive awaited, ?_, ?_, ?_⟩
  · rintro before e after rfl asks
    obtain ⟨d₁, w₁, _, here⟩ := lives.split
    cases here with
    | more call rest => exact rest.settled (call.takes asks)
  · rintro before e after rfl fails
    obtain ⟨d₁, w₁, _, here⟩ := lives.split
    cases here with
    | more call rest => exact rest.refused (call.of_fails fails)
  · rintro before e between e' after n rfl given kept
    obtain ⟨d₁, w₁, _, here⟩ := lives.split
    cases here with
    | more call rest =>
        obtain ⟨stage, rfl⟩ := call.of_ok given
        obtain ⟨d₂, w₂, first, last⟩ := rest.split
        obtain ⟨still, same⟩ := first.repeated stage kept
        cases last with
        | more again _ => exact same ▸ (again.repeated still).1

/-- Whatever is called on a delivery, and in whatever order: as long as nothing is called behind a
commit that was given up, the wire shows a beginning of one message. A run may be given up at any
moment. -/
theorem live_ordered (framing : Framing) (head : Option Bytes) (calls : List Call) (w : Writer)
    (awaited : ∀ e ∈ (live calls { framing, head } w).1.dropLast, e.dropsCommit = false) :
    (live calls { framing, head } w).2.2.output =
        w.output ++ Event.bytes (events (live calls { framing, head } w).1) ∧
      Ordered framing (head.getD []) (live calls { framing, head } w).1 :=
  have lives := lives_live calls { framing, head } w
  ⟨lives.output, lives.ordered (alive_start framing head w) awaited⟩

def Call.alone (act : Act) (limit : Nat) : Call :=
  { act, link := { clock := { limit }, reader := { arrivals := [], capacity := 1 }, writer := {} } }

/-- The head is sent ahead; a body is given up in the middle, and another one is refused. -/
theorem live_ordered_given_up :
    let calls := [.alone .commit 9, .alone (.run .endless (.script [.chunk [97], .silence])) 9,
      .alone (.run .endless (.known [98])) 9]
    let lived := live calls { framing := .chunked, head := some [72] } {}
    (∀ e ∈ lived.1.dropLast, e.dropsCommit = false) ∧
      lived.2.2.output = [72, 49, 13, 10, 97, 13, 10] ∧ Ordered .chunked [72] lived.1 := by
  refine ⟨by decide +kernel, by decide +kernel, ?_⟩
  exact (live_ordered .chunked (some [72]) _ {} (by decide +kernel)).2

theorem failed_of_lives (lives : Lives d w entries d' w') (stage : d.stage = .failed) :
    d'.stage = .failed ∧ Event.bytes (events entries) <+: d.pending ∧
      (∀ e ∈ entries, e.act ≠ .commit → e.events = []) ∧ (d.head = none → events entries = []) := by
  induction lives with
  | none d w => exact ⟨stage, List.nil_prefix, List.forall_mem_nil _, fun _ => rfl⟩
  | @more d d₁ d' w w₁ w' e entries call rest ih =>
      have still := (call.refused stage).1
      obtain ⟨ended, part, only, gone⟩ := ih still
      -- what is not a commit does nothing, and leaves the head where it is
      have idle : e.events = [] → d₁.head = d.head → d'.stage = .failed ∧
          Event.bytes (events (e :: entries)) <+: d.pending ∧
          (∀ x ∈ e :: entries, x.act ≠ .commit → x.events = []) ∧
          (d.head = none → events (e :: entries) = []) := by
        intro nothing same
        have all : events (e :: entries) = events entries := by
          rw [events_cons, nothing, List.nil_append]
        rw [all]
        refine ⟨ended, pending_of_head_eq same ▸ part, ?_, fun none => gone (same.trans none)⟩
        intro x member other
        rcases List.mem_cons.mp member with rfl | later
        · exact nothing
        · exact only x later other
      cases call with
      | cancel | committed | abort => exact idle rfl rfl
      | run _ _ runs =>
          cases runs with
          | refused => exact idle rfl rfl
          | repeated other | unflushed other | begun other => cases stage.symm.trans other
      | @commit held sent _ _ there sends =>
          rw [events_cons, gone rfl, List.append_nil]
          refine ⟨ended, ?_, ?_, ?_⟩
          · rw [pending, there]
            exact sends.bytes.1
          · intro x member other
            rcases List.mem_cons.mp member with rfl | later
            · exact absurd rfl other
            · exact only x later other
          · intro none
            cases none.symm.trans there

/-- Behind a failure nothing is sent any more but a head that was still held back: a commit sends
it, for it does not look at the stage. -/
theorem live_failed (d : Delivery) (calls : List Call) (w : Writer) :
    let lived := live calls { d with stage := .failed } w
    lived.2.1.stage = .failed ∧
      lived.2.2.output = w.output ++ Event.bytes (events lived.1) ∧
      Event.bytes (events lived.1) <+: d.pending ∧
      (∀ e ∈ lived.1, e.act ≠ .commit → e.events = []) ∧
      (d.head = none → events lived.1 = []) := by
  have lives := lives_live calls { d with stage := .failed } w
  obtain ⟨stage, part, only, gone⟩ := failed_of_lives lives rfl
  exact ⟨stage, lives.output, part, only, gone⟩

/-- A failed delivery may still send: a body is cancelled before anything of it is on the wire, and
then the head is committed. -/
theorem failed_may_send :
    ¬ ∀ (framing : Framing) (head : Option Bytes) (w : Writer) (calls more : List Call),
      (live calls { framing, head } w).2.1.stage = .failed →
      (live (calls ++ more) { framing, head } w).2.2.output =
        (live calls { framing, head } w).2.2.output := by
  intro quiet
  let calls : List Call := [.alone .cancel 9, .alone (.run .endless (.script [.chunk [97]])) 9]
  have failed : (live calls { framing := .chunked, head := some [72] } {}).2.1.stage = .failed := by
    decide +kernel
  have same := quiet .chunked (some [72]) {} calls [.alone .commit 9] failed
  have sent : (live (calls ++ [.alone .commit 9])
      { framing := .chunked, head := some [72] } {}).2.2.output = [72] := by decide +kernel
  have unsent : (live calls { framing := .chunked, head := some [72] } {}).2.2.output = [] := by
    decide +kernel
  cases sent.symm.trans (same.trans unsent)

end Delivery

end HttpExchange
