import HttpExchange.Proofs.Server.Interleaving
import HttpExchange.Proofs.Server.Refusal

/-!
A server that accepts connections while it serves others. Connections come, take their turns and
come to their ends in any order; an end may be that all is served, an error, or a panic. A slot is
taken by whoever is served, and given back once.
-/

namespace HttpExchange

variable {ω : Type}

inductive Departure where
  | returned
  | failed (e : ServerError)
  | panicked

inductive Accepted (ω : Type) where
  /-- There was no slot for it. -/
  | refused (link : Link)
  | serving (c : Connection ω)
  | ended (c : Connection ω) (how : Departure)

namespace Accepted

def isServing : Accepted ω → Bool
  | serving _ => true
  | refused _ | ended _ _ => false

def isEnded : Accepted ω → Bool
  | ended _ _ => true
  | refused _ | serving _ => false

def counts : Accepted ω → Counters
  | refused _ => {}
  | serving c | ended c _ => c.counts

theorem total_counts_concat (all : List (Accepted ω)) {new : Accepted ω} (none : new.counts = {}) :
    Counters.total ((all ++ [new]).map counts) = Counters.total (all.map counts) := by
  rw [List.map_append, List.map_singleton, none, Counters.total, List.foldr_append]
  rfl

end Accepted

/-- A server with all connections that it has accepted, each known by its place among them. -/
structure Listener (ω : Type) where
  slots : Acceptor
  counters : Counters := {}
  accepted : List (Accepted ω) := []

namespace Listener

inductive Event where
  | arrives (link : Link)
  /-- A connection takes its turn. -/
  | turn (i : Nat)
  /-- A connection that has returned ends. -/
  | ends (i : Nat)
  | panics (i : Nat)

def start (server : Server ω) : Listener ω := { slots := .start server.config }

/-- A connection ends, and its slot comes back. -/
def leave (l : Listener ω) (i : Nat) (c : Connection ω) (how : Departure) : Listener ω :=
  { l with slots := l.slots.step (.ended i), accepted := l.accepted.set i (.ended c how) }

/-- The server behind an event. What does not concern a connection that is being served is void. -/
def step (server : Server ω) (l : Listener ω) : Event → Listener ω
  | .arrives link =>
    if l.slots.refuses then { l with accepted := l.accepted ++ [.refused (server.refuse link)] }
    else
      { l with
        slots := l.slots.step (.accepted l.accepted.length)
        accepted := l.accepted ++ [.serving { link }] }
  | .turn i => match l.accepted[i]? with
    | some (.serving c) =>
      { l with
        counters := (server.turn (l.counters.issued + 1) c).1.on l.counters
        accepted := l.accepted.set i (.serving (server.advance (l.counters.issued + 1) c)) }
    | _ => l
  | .ends i => match l.accepted[i]? with
    | some (.serving c) => match c.place with
      | .returned (.ok ()) => l.leave i c .returned
      | .returned (.error e) => l.leave i c (.failed e)
      | _ => l
    | _ => l
  | .panics i => match l.accepted[i]? with
    | some (.serving c) => l.leave i c .panicked
    | _ => l

def run (server : Server ω) (l : Listener ω) (events : List Event) : Listener ω :=
  events.foldl (step server) l

def served (l : Listener ω) : Nat := l.accepted.countP Accepted.isServing

def isServing (l : Listener ω) (i : Nat) : Bool := l.accepted[i]?.any Accepted.isServing

def hasEnded (l : Listener ω) (i : Nat) : Bool := l.accepted[i]?.any Accepted.isEnded

/-- How often a connection gives a slot back in the course of events. -/
def givesBack (server : Server ω) (i : Nat) : Listener ω → List Event → Nat
  | _, [] => 0
  | l, e :: events =>
    let l' := l.step server e
    (if i ∈ l.slots.serving ∧ i ∉ l'.slots.serving then 1 else 0) + givesBack server i l' events

variable {server : Server ω} {l l' : Listener ω} {e : Event} {i : Nat} {c : Connection ω}

inductive Departs (c : Connection ω) (i : Nat) : Event → Departure → Prop where
  | returned (place : c.place = .returned (.ok ())) : Departs c i (.ends i) .returned
  | failed {e : ServerError} (place : c.place = .returned (.error e)) :
      Departs c i (.ends i) (.failed e)
  | panicked : Departs c i (.panics i) .panicked

/-- All that can come of an event. -/
inductive Does (server : Server ω) (l : Listener ω) : Event → Listener ω → Prop where
  | nothing {e : Event} (other : ∀ link, e ≠ .arrives link) : Does server l e l
  | refuses {link : Link} (full : l.slots.free = 0) : Does server l (.arrives link)
      { l with accepted := l.accepted ++ [.refused (server.refuse link)] }
  | serves {link : Link} (free : l.slots.free ≠ 0) : Does server l (.arrives link)
      { l with
        slots := ⟨l.slots.free - 1, l.accepted.length :: l.slots.serving⟩
        accepted := l.accepted ++ [.serving { link }] }
  | turns {i : Nat} {c : Connection ω} (here : l.accepted[i]? = some (.serving c)) :
      Does server l (.turn i)
        { l with
          counters := (server.turn (l.counters.issued + 1) c).1.on l.counters
          accepted := l.accepted.set i (.serving (server.advance (l.counters.issued + 1) c)) }
  | leaves {e : Event} {i : Nat} {c : Connection ω} {how : Departure}
      (here : l.accepted[i]? = some (.serving c)) (departs : Departs c i e how) :
      Does server l e (l.leave i c how)

theorem step_does (server : Server ω) (l : Listener ω) (e : Event) :
    Does server l e (l.step server e) := by
  cases e with
  | arrives link =>
      by_cases full : l.slots.free = 0
      · have refuses : l.slots.refuses = true := beq_iff_eq.mpr full
        rw [step, if_pos refuses]
        exact .refuses full
      · have takes : ¬ l.slots.refuses = true := mt beq_iff_eq.mp full
        rw [step, if_neg takes, Acceptor.step, if_neg takes]
        exact .serves full
  | turn i =>
      rw [step]
      split
      · next here => exact .turns here
      · exact .nothing fun _ => Event.noConfusion
  | ends i =>
      rw [step]
      split
      · next here =>
          split
          · next place => exact .leaves here (.returned place)
          · next place => exact .leaves here (.failed place)
          · exact .nothing fun _ => Event.noConfusion
      · exact .nothing fun _ => Event.noConfusion
  | panics i =>
      rw [step]
      split
      · next here => exact .leaves here .panicked
      · exact .nothing fun _ => Event.noConfusion

theorem any_set {p : Accepted ω → Bool} {all : List (Accepted ω)} {i : Nat} {old : Accepted ω}
    (here : all[i]? = some old) (new : Accepted ω) (j : Nat) :
    (all.set i new)[j]?.any p = if i = j then p new else all[j]?.any p := by
  obtain ⟨within, _⟩ := List.getElem?_eq_some_iff.mp here
  by_cases same : i = j
  · subst same
    rw [List.getElem?_set_self within, if_pos rfl]
    rfl
  · rw [List.getElem?_set_ne same, if_neg same]

theorem any_concat {p : Accepted ω → Bool} (all : List (Accepted ω)) (new : Accepted ω) (j : Nat) :
    (all ++ [new])[j]?.any p = if j = all.length then p new else all[j]?.any p := by
  by_cases last : j = all.length
  · subst last
    rw [List.getElem?_concat_length, if_pos rfl]
    rfl
  · rw [if_neg last]
    by_cases within : j < all.length
    · rw [List.getElem?_append_left within]
    · rw [List.getElem?_eq_none (by rw [List.length_append, List.length_singleton]; omega),
        List.getElem?_eq_none (by omega)]

theorem any_length {p : Accepted ω → Bool} (all : List (Accepted ω)) :
    all[all.length]?.any p = false := by
  rw [List.getElem?_eq_none (Nat.le_refl _)]
  rfl

theorem any_concat_of_not {p : Accepted ω → Bool} (all : List (Accepted ω)) {new : Accepted ω}
    (other : p new = false) (j : Nat) : (all ++ [new])[j]?.any p = all[j]?.any p := by
  rw [any_concat]
  split
  · next last => rw [last, any_length, other]
  · rfl

theorem any_set_of_eq {p : Accepted ω → Bool} {all : List (Accepted ω)} {i : Nat}
    {old new : Accepted ω} (here : all[i]? = some old) (same : p new = p old) (j : Nat) :
    (all.set i new)[j]?.any p = all[j]?.any p := by
  rw [any_set here]
  split
  · next own =>
      rw [← own, here, same]
      rfl
  · rfl

/-- Where a connection is being served, there are as many others before and after. -/
theorem served_set (here : l.accepted[i]? = some (.serving c)) (new : Accepted ω) :
    (l.accepted.set i new).countP Accepted.isServing + 1 =
      l.served + if new.isServing then 1 else 0 := by
  obtain ⟨within, got⟩ := List.getElem?_eq_some_iff.mp here
  have pos : 0 < l.accepted.countP Accepted.isServing :=
    List.countP_pos_iff.mpr ⟨_, List.mem_of_getElem? here, rfl⟩
  rw [List.countP_set within, got, served]
  simp only [Accepted.isServing, if_true]
  omega

theorem counts_of_here (here : l.accepted[i]? = some (.serving c)) :
    (l.accepted.map Accepted.counts)[i]? = some c.counts := by
  rw [List.getElem?_map, here]
  rfl

theorem isServing_of_here (here : l.accepted[i]? = some (.serving c)) : l.isServing i = true := by
  rw [isServing, here]
  rfl

theorem hasEnded_of_here (here : l.accepted[i]? = some (.serving c)) : l.hasEnded i = false := by
  rw [hasEnded, here]
  rfl

/-- At every moment a slot is free or has one connection that is being served, and the counters are
the sums of what the connections have counted. -/
structure Sound (server : Server ω) (l : Listener ω) : Prop where
  slots : l.slots.free + l.slots.serving.length = server.config.maxConnections
  distinct : l.slots.serving.Nodup
  member : ∀ i, i ∈ l.slots.serving ↔ l.isServing i = true
  served : l.served = l.slots.serving.length
  counters : l.counters = Counters.total (l.accepted.map Accepted.counts)

theorem sound_start (server : Server ω) : Sound server (start server) :=
  ⟨rfl, List.nodup_nil, fun _ => ⟨nofun, nofun⟩, rfl, rfl⟩

/-- The slots behind a connection that ends. -/
theorem Sound.slots_leave (sound : Sound server l) (here : l.accepted[i]? = some (.serving c))
    (how : Departure) :
    i ∈ l.slots.serving ∧
      (l.leave i c how).slots = ⟨l.slots.free + 1, l.slots.serving.erase i⟩ := by
  have holds : i ∈ l.slots.serving := (sound.member i).mpr (isServing_of_here here)
  exact ⟨holds, if_pos holds⟩

/-- Nothing that happens gets a slot lost or given out twice. -/
theorem Sound.does (sound : Sound server l) (does : Does server l e l') : Sound server l' := by
  cases does with
  | nothing => exact sound
  | @refuses link full =>
      refine ⟨sound.slots, sound.distinct, fun j => ?_, ?_, ?_⟩
      · rw [sound.member, isServing, isServing, any_concat_of_not _ rfl]
      · exact (List.countP_append ..).trans sound.served
      · exact sound.counters.trans (Accepted.total_counts_concat _ rfl).symm
  | @serves link free =>
      have fresh : l.accepted.length ∉ l.slots.serving := by
        rw [sound.member, isServing, any_length]
        exact Bool.false_ne_true
      refine ⟨?_, List.nodup_cons.mpr ⟨fresh, sound.distinct⟩, fun j => ?_, ?_, ?_⟩
      · have slots := sound.slots
        simp only [List.length_cons]
        omega
      · rw [List.mem_cons, sound.member, isServing, isServing, any_concat]
        split
        · next last => exact ⟨fun _ => rfl, fun _ => .inl last⟩
        · next other => exact ⟨fun held => held.resolve_left other, .inr⟩
      · exact (List.countP_append ..).trans (congrArg (· + 1) sound.served)
      · exact sound.counters.trans (Accepted.total_counts_concat _ rfl).symm
  | @turns i c here =>
      refine ⟨sound.slots, sound.distinct, fun j => ?_, ?_, ?_⟩
      · rw [sound.member, isServing, isServing, any_set_of_eq here]
        rfl
      · exact Nat.add_right_cancel ((served_set here _).trans (congrArg (· + 1) sound.served))
      · rw [List.map_set, Accepted.counts, Server.counts_advance,
          Effect.total_set _ (counts_of_here here), ← sound.counters]
  | @leaves e i c how here departs =>
      obtain ⟨holds, slots⟩ := sound.slots_leave here how
      have pos := List.length_pos_of_mem holds
      refine ⟨?_, ?_, fun j => ?_, ?_, ?_⟩
      · have all := sound.slots
        rw [slots, List.length_erase_of_mem holds]
        dsimp only
        omega
      · rw [slots]
        exact sound.distinct.erase i
      · rw [slots, sound.distinct.mem_erase_iff, sound.member, isServing, isServing, leave,
          any_set here]
        split
        · next same => exact ⟨fun held => absurd same.symm held.1, nofun⟩
        · next other => exact ⟨And.right, fun held => ⟨fun same => other same.symm, held⟩⟩
      · have fewer : (l.leave i c how).served + 1 = l.served := served_set here (.ended c how)
        have served := sound.served
        rw [slots, List.length_erase_of_mem holds]
        omega
      · -- it leaves with the counts that it has
        have same := Effect.none.total_set (counts_of_here here)
        rw [leave, List.map_set]
        exact sound.counters.trans same.symm

theorem Sound.run (sound : Sound server l) (events : List Event) :
    Sound server (l.run server events) := by
  induction events generalizing l with
  | nil => exact sound
  | cons e events ih => exact ih (sound.does (step_does server l e))

/-- A slot comes back where a connection ends that was served, and nowhere else. -/
theorem Sound.givesBack_does (sound : Sound server l) (does : Does server l e l') (j : Nat) :
    (if j ∈ l.slots.serving ∧ j ∉ l'.slots.serving then 1 else 0) + (l.hasEnded j).toNat =
      (l'.hasEnded j).toNat := by
  cases does with
  | nothing => rw [if_neg fun left => left.2 left.1, Nat.zero_add]
  | refuses full =>
      rw [if_neg fun left => left.2 left.1, Nat.zero_add, hasEnded, hasEnded,
        any_concat_of_not _ rfl]
  | serves free =>
      rw [if_neg fun left => left.2 (List.mem_cons_of_mem _ left.1), Nat.zero_add, hasEnded,
        hasEnded, any_concat_of_not _ rfl]
  | turns here =>
      rw [if_neg fun left => left.2 left.1, Nat.zero_add, hasEnded, hasEnded,
        any_set_of_eq here]
      rfl
  | @leaves e i c how here departs =>
      obtain ⟨holds, slots⟩ := sound.slots_leave here how
      have kept : j ∈ (l.leave i c how).slots.serving ↔ j ≠ i ∧ j ∈ l.slots.serving := by
        rw [slots, sound.distinct.mem_erase_iff]
      by_cases same : i = j
      · subst same
        have behind : (l.leave i c how).hasEnded i = true := by
          rw [hasEnded, leave, any_set here, if_pos rfl]
          rfl
        rw [if_pos ⟨holds, fun stays => (kept.mp stays).1 rfl⟩, hasEnded_of_here here, behind]
        rfl
      · rw [if_neg fun left => left.2 (kept.mpr ⟨fun own => same own.symm, left.1⟩), Nat.zero_add,
          hasEnded, hasEnded, leave, any_set here, if_neg same]

theorem Sound.givesBack_run (sound : Sound server l) (events : List Event) (i : Nat) :
    givesBack server i l events + (l.hasEnded i).toNat =
      ((l.run server events).hasEnded i).toNat := by
  induction events generalizing l with
  | nil => exact Nat.zero_add _
  | cons e events ih =>
      have does := step_does server l e
      have first := sound.givesBack_does does i
      have later := ih (sound.does does)
      rw [givesBack]
      rw [show l.run server (e :: events) = (l.step server e).run server events from rfl]
      omega

/-- A connection that arrives is refused exactly if there are as many served as may be. Where it is
refused, nothing else changes. -/
theorem Sound.step_arrives (sound : Sound server l) (link : Link) :
    l.step server (.arrives link) =
      if l.served = server.config.maxConnections then
        { l with accepted := l.accepted ++ [.refused (server.refuse link)] }
      else
        { l with
          slots := l.slots.step (.accepted l.accepted.length)
          accepted := l.accepted ++ [.serving { link }] } := by
  have slots := sound.slots
  rw [← sound.served] at slots
  by_cases full : l.served = server.config.maxConnections
  · have refuses : l.slots.refuses = true := beq_iff_eq.mpr (by omega)
    rw [step, if_pos refuses, if_pos full]
  · have takes : ¬ l.slots.refuses = true := mt beq_iff_eq.mp (by omega)
    rw [step, if_neg takes, if_neg full]

/-- Who is not served any more, or never was, is left alone. -/
theorem Does.stays {a : Accepted ω} (does : Does server l e l') (here : l.accepted[i]? = some a)
    (apart : a.isServing = false) : l'.accepted[i]? = some a := by
  have within := (List.getElem?_eq_some_iff.mp here).1
  have other : ∀ {j : Nat} {c : Connection ω}, l.accepted[j]? = some (.serving c) → j ≠ i := by
    rintro j c there rfl
    cases here.symm.trans there
    cases apart
  cases does with
  | nothing => exact here
  | refuses | serves => exact (List.getElem?_append_left within).trans here
  | turns there | leaves there => exact (List.getElem?_set_ne (other there)).trans here

theorem run_stays {a : Accepted ω} (here : l.accepted[i]? = some a) (apart : a.isServing = false)
    (events : List Event) : (l.run server events).accepted[i]? = some a := by
  induction events generalizing l with
  | nil => exact here
  | cons e events ih => exact ih ((step_does server l e).stays here apart)

/-- The limit holds in every order of events. Never more connections are served than may be, and
each has one slot; it gives it back once, when it ends, however it ends. A connection that arrives
is refused exactly if as many are served as may be, and then nothing else changes: no counter, no
number, no other connection. What was refused stays so: nothing that it sends is read, nothing is
written but a response that says that the service is unavailable and the connection ends, and then
the sending direction is closed. If nothing but waits stands in the way, that response is there
whole, unless the flush behind its head takes as long as a body may be idle. -/
theorem run_limited (server : Server ω) (events : List Event) :
    let most := server.config.maxConnections
    let l := (start server).run server events
    l.served ≤ most ∧ l.slots.free + l.served = most ∧
    (∀ i, givesBack server i (start server) events = (l.hasEnded i).toNat) ∧
    l.counters = Counters.total (l.accepted.map Accepted.counts) ∧
    (∀ link, l.step server (.arrives link) =
      if l.served = most then
        { l with accepted := l.accepted ++ [.refused (server.refuse link)] }
      else
        { l with
          slots := l.slots.step (.accepted l.accepted.length)
          accepted := l.accepted ++ [.serving { link }] }) ∧
    (∀ (i : Nat) (link : Link) (later : List Event), l.accepted[i]? = some (.refused link) →
      (l.run server later).accepted[i]? = some (.refused link)) ∧
    (∀ link, Server.Refused link (server.refuse link) ∧
      (link.writer.rule.Willing → ∃ (enough : Nat) (headed : Link),
        link.SendsBy (Server.atCapacity.head true) enough headed ∧
          ∀ limit, enough ≤ limit → (server.refuse (link.limited limit)).writer.output =
            link.writer.output ++
              if headed.FlushesInTime server.config.bodyIdleTimeout then Server.refusal
              else Server.atCapacity.head true)) ∧
    ∀ (reader : Reader) (rest : Bytes) (tail : List Arrival) (method : Method) (limit bound : Nat)
      (c : Clock), reader.Holds (Server.refusal ++ rest) tail → method ≠ .head →
      Server.refusal.length ≤ limit →
      ∃ reception, Wire.receive ResponseHead.parse (Framing.ofResponse · method) limit bound reader
          c = .ok (some reception) ∧
        reception.head.status = 503 ∧
        reception.head.fields.find? Fields.connection = some "close" ∧
        reception.body.pieces.flatten = Server.capacityText ∧ reception.body.ending = .ok () ∧
        reception.body.reader.Holds rest tail := by
  intro most l
  have begins := sound_start server
  have sound : Sound server l := begins.run events
  have slots := sound.slots
  rw [← sound.served] at slots
  refine ⟨?_, slots, fun i => ?_, sound.counters, sound.step_arrives, ?_, fun link => ⟨?_, ?_⟩, ?_⟩
  · calc l.served ≤ l.slots.free + l.served := Nat.le_add_left _ _
      _ = most := slots
  · exact begins.givesBack_run events i
  · intro i link later here
    exact run_stays here rfl later
  · exact server.refused_refuse link
  · exact server.output_refuse_willing
  · intro reader rest tail method limit bound c holds notHead enough
    exact Server.receive_refusal holds notHead enough bound c

/-- One slot: a connection that comes while another one is served is refused, and one that comes
after a panic of that other is served. -/
theorem run_limited_one :
    let server : Server Unit := { config := { maxConnections := 1 }, routes := ⟨[]⟩ }
    let link : Link := {
      clock := { limit := 0 }
      reader := { arrivals := [.bytes [71, 69, 84]], capacity := 64 }
      writer := {} }
    let events : List Event :=
      [.arrives link, .turn 0, .arrives link, .turn 1, .panics 0, .panics 0, .ends 1, .arrives link]
    let l := (start server).run server events
    l.served = 1 ∧ l.slots = ⟨0, [2]⟩ ∧ l.counters = {} ∧
      (∀ i, givesBack server i (start server) events = (l.hasEnded i).toNat) ∧
      l.hasEnded 0 = true ∧ l.hasEnded 1 = false ∧ l.hasEnded 2 = false ∧
      l.accepted[1]? = some (.refused (server.refuse link)) ∧
      (server.refuse link).reader = link.reader ∧
      (∃ limit, (server.refuse (link.limited limit)).writer.output = Server.refusal) ∧
      ∃ reception, Wire.receive ResponseHead.parse (Framing.ofResponse · .get) Server.refusal.length
          16 { arrivals := [.bytes Server.refusal], capacity := 64 } { limit := 0 } =
            .ok (some reception) ∧
        reception.head.status = 503 ∧ reception.body.ending = .ok () := by
  intro server link events l
  obtain ⟨_, _, gives, _, _, _, refused, received⟩ := run_limited server events
  obtain ⟨⟨still, _, _⟩, whole⟩ := refused link
  have willing : link.writer.rule.Willing :=
    ⟨(Option.some_ne_none 0).symm, rfl, rfl, rfl, List.forall_mem_nil _, List.forall_mem_nil _⟩
  obtain ⟨enough, headed, sends, writes⟩ := whole willing
  have inTime : headed.FlushesInTime server.config.bodyIdleTimeout := by
    have rule := Delivery.rule_of_sendsBy sends
    exact Delivery.flushesInTime_of_gateless (congrArg WriteRule.flushGates rule) (by decide)
  have written := (writes enough (Nat.le_refl _)).trans (by rw [if_pos inTime])
  have holds : ({ arrivals := [.bytes Server.refusal], capacity := 64 } : Reader).Holds
      (Server.refusal ++ []) [] := by
    rw [List.append_nil]
    exact Reader.holds_segment (by decide) _ []
  obtain ⟨reception, read, status, _, _, ending, _⟩ :=
    received _ [] [] .get _ 16 { limit := 0 } holds nofun (Nat.le_refl _)
  obtain ⟨one, slots, none, first, second, third⟩ : l.served = 1 ∧ l.slots = ⟨0, [2]⟩ ∧
      l.counters = {} ∧ l.hasEnded 0 = true ∧ l.hasEnded 1 = false ∧ l.hasEnded 2 = false := by
    decide +kernel
  have sent : ((start server).run server (events.take 3)).accepted[1]? =
      some (.refused (server.refuse link)) := rfl
  have stays : (((start server).run server (events.take 3)).run server (events.drop 3)).accepted[1]?
      = some (.refused (server.refuse link)) := run_stays sent rfl _
  rw [run, run, ← List.foldl_append, List.take_append_drop] at stays
  exact ⟨one, slots, none, gives, first, second, third, stays, still.reader,
    ⟨enough, written⟩, reception, read, status, ending⟩

end Listener

end HttpExchange
