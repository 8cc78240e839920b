import HttpExchange.Proofs.Server.Turns
import Mathlib.Algebra.Ring.Nat
import Mathlib.Data.List.Perm.Basic

/-!
Connections of one server side by side. Their turns come in any order, and each turn touches the
counters once at most. Every connection comes to what it comes to alone on a fresh server, but for the
numbers; these are given out one by one, each to one exchange; and the counters are the sums of what the
connections count alone.
-/

namespace HttpExchange

variable {ω : Type}

namespace Counters

def total (all : List Counters) : Counters := all.foldr behind {}

theorem completed_total (all : List Counters) :
    (total all).completed = (all.map completed).sum := by
  induction all with
  | nil => rfl
  | cons c all ih => exact congrArg (c.completed + ·) ih

theorem aborted_total (all : List Counters) : (total all).aborted = (all.map aborted).sum := by
  induction all with
  | nil => rfl
  | cons c all ih => exact congrArg (c.aborted + ·) ih

end Counters

namespace Effect

theorem on_behind (e : Effect) (a b : Counters) : (e.on a).behind b = e.on (a.behind b) := by
  cases e with
  | none => rfl
  | issue | complete | abort =>
      simp only [on, Counters.issue, Counters.complete, Counters.abort, Counters.behind,
        Nat.add_right_comm]

theorem behind_on (e : Effect) (a b : Counters) : a.behind (e.on b) = e.on (a.behind b) := by
  cases e with
  | none => rfl
  | issue | complete | abort => rfl

theorem issued_on {e : Effect} (c : Counters) (none : e ≠ .issue) : (e.on c).issued = c.issued := by
  cases e with
  | issue => exact absurd rfl none
  | none | complete | abort => rfl

theorem total_set (e : Effect) {all : List Counters} {i : Nat} {c : Counters}
    (here : all[i]? = some c) :
    Counters.total (all.set i (e.on c)) = e.on (Counters.total all) := by
  induction all generalizing i with
  | nil => cases here
  | cons first all ih =>
      cases i with
      | zero =>
          cases here
          exact e.on_behind _ _
      | succ i =>
          have later := ih (List.getElem?_cons_succ ▸ here)
          exact (congrArg first.behind later).trans (e.behind_on _ _)

end Effect

/-- A connection of its own on a fresh server. -/
def Session.fresh (link : Link) : Session ω := { link, counters := {} }

namespace Server

/-- What a connection comes to that a fresh server has to itself. -/
def solo (server : Server ω) (link : Link) : Outcome ServerError Unit × Session ω :=
  server.serve (.fresh link)

/-- Whether the last head that is looked for cannot be read. -/
def endsUnread (server : Server ω) (s : Session ω) : Bool :=
  match _read : s.link.readHead server.config.maxHeadSize with
  | (.ok none, _) => false
  | (.error _, _) => true
  | (.stuck, _) => false
  | (.ok (some head), link) => match _answered : server.answer head { s with link } with
    | (.finished _, _) => false
    | (.proceed, s) => endsUnread server s
termination_by s.link.weight
decreasing_by
  exact Nat.lt_of_le_of_lt (weight_answer _answered) ((Link.weight_readHead _read).2 _ rfl)

variable {server : Server ω} {s s₁ s' : Session ω} {link : Link} {head : Bytes} {step : Step}
  {out : Outcome ServerError Unit}

theorem endsUnread_iff : server.endsUnread s = true ↔
    ∃ heads s' e link, server.Looks s heads s' ∧
      s'.link.readHead server.config.maxHeadSize = (.error e, link) := by
  fun_induction endsUnread server s with
  | case1 s link read | case3 s link read =>
      refine iff_of_false Bool.false_ne_true ?_
      rintro ⟨_, _, e, _, looks, failed⟩
      cases looks with
      | here => cases read.symm.trans failed
      | next other => cases read.symm.trans other
  | case2 s e link read => exact iff_of_true rfl ⟨[], s, e, link, .here s, read⟩
  | case4 s head link read result s₁ answered =>
      refine iff_of_false Bool.false_ne_true ?_
      rintro ⟨_, _, e, _, looks, failed⟩
      cases looks with
      | here => cases read.symm.trans failed
      | next same proceeds =>
          cases read.symm.trans same
          cases answered.symm.trans proceeds
  | case5 s head link read s₁ answered ih =>
      refine ih.trans ⟨?_, ?_⟩
      · rintro ⟨heads, s', e, l, looks, failed⟩
        exact ⟨head :: heads, s', e, l, .next read answered looks, failed⟩
      · rintro ⟨heads, s', e, l, looks, failed⟩
        cases looks with
        | here => cases read.symm.trans failed
        | next same proceeds rest =>
            cases read.symm.trans same
            cases answered.symm.trans proceeds
            exact ⟨_, s', e, l, rest, failed⟩

/-- A request of which the head was read is counted once as issued, and once as what becomes of it. -/
theorem counters_answer (read : s.link.readHead server.config.maxHeadSize = (.ok (some head), link))
    (answered : server.answer head { s with link } = (step, s'))
    (returned : step ≠ .finished .stuck) :
    s'.counters = s.counters.issue.complete ∨ s'.counters = s.counters.issue.abort := by
  rcases handling_of_answer read answered returned with ⟨e, rfl, rfl⟩ | ⟨h, same⟩
  · exact .inr rfl
  · cases h.leaves same returned with
    | proceeds b whole output counters => exact .inl counters
    | ends b whole output counters => exact .inl counters
    | breaks b e begun output counters => exact .inr counters

/-- Everything that is issued is counted once more, and the only thing beside it that is counted is a
head that cannot be read. -/
theorem serve_balance (eq : server.serve s = (out, s')) (returned : out ≠ .stuck) :
    s'.counters.issued + (server.endsUnread s).toNat +
        (s.counters.completed + s.counters.aborted) =
      s'.counters.completed + s'.counters.aborted + s.counters.issued := by
  fun_induction endsUnread server s with
  | case1 s link read =>
      rw [serve_eq, read] at eq
      cases eq
      simp only [Bool.toNat_false]
      omega
  | case2 s e link read =>
      rw [serve_eq, read] at eq
      cases eq
      simp only [Session.abort, Counters.abort, Bool.toNat_true]
      omega
  | case3 s link read =>
      rw [serve_eq, read] at eq
      cases eq
      exact absurd rfl returned
  | case4 s head link read result s₁ answered =>
      rw [serve_eq, read] at eq
      simp only [answered] at eq
      cases eq
      have own : Step.finished out ≠ .finished .stuck :=
        fun stuck => returned (Step.finished.inj stuck)
      rcases counters_answer read answered own with counters | counters
      all_goals
        simp only [counters, Counters.issue, Counters.complete, Counters.abort, Bool.toNat_false]
        omega
  | case5 s head link read s₁ answered ih =>
      rw [serve_eq, read] at eq
      simp only [answered] at eq
      have later := ih eq
      rcases counters_answer read answered Step.noConfusion with counters | counters
      all_goals
        simp only [counters, Counters.issue, Counters.complete, Counters.abort] at later
        omega

theorem counts_advance (server : Server ω) (number : Nat) (c : Connection ω) :
    (server.advance number c).counts = (server.turn number c).1.on c.counts := rfl

/-- A connection takes the number where it counts one as issued, and only there. -/
theorem numbers_advance (server : Server ω) (number : Nat) (c : Connection ω) :
    (server.turn number c).1 = .issue ∧ (server.advance number c).numbers = number :: c.numbers ∨
      (server.turn number c).1 ≠ .issue ∧ (server.advance number c).numbers = c.numbers := by
  obtain ⟨link, counts, seen, numbers, place⟩ := c
  cases place with
  | begun head => exact .inl ⟨rfl, rfl⟩
  | waiting | numbered | answered | counted =>
      simp only [advance, turn]
      repeat' split
      all_goals exact .inr ⟨Effect.noConfusion, rfl⟩
  | sent | failing | returned => exact .inr ⟨Effect.noConfusion, rfl⟩

end Server

/-- The connections of a server, with its counters. -/
structure Floor (ω : Type) where
  counters : Counters := {}
  connections : List (Connection ω)

namespace Floor

def start (links : List Link) : Floor ω := { connections := links.map fun link => { link } }

def turn (server : Server ω) (f : Floor ω) (i : Nat) : Floor ω :=
  match f.connections[i]? with
  | none => f
  | some c =>
    { counters := (server.turn (f.counters.issued + 1) c).1.on f.counters
      connections := f.connections.set i (server.advance (f.counters.issued + 1) c) }

def run (server : Server ω) (f : Floor ω) (order : List Nat) : Floor ω :=
  order.foldl (turn server) f

/-- The numbers of all exchanges so far. -/
def numbers (f : Floor ω) : List Nat := f.connections.flatMap Connection.numbers

end Floor

namespace Floor

variable {server : Server ω} {links : List Link} {f : Floor ω} {c : Connection ω} {i : Nat}

/-- Behind any turns: what is left of each connection is what is left of it alone, the counters are
the sums of what the connections have counted, and the numbers are those that were given out. -/
structure Sound (server : Server ω) (links : List Link) (f : Floor ω) : Prop where
  size : f.connections.length = links.length
  rest : ∀ (i : Nat) (link : Link) (c : Connection ω), links[i]? = some link → f.connections[i]? = some c →
    (server.rest c).1.unnumbered = (server.solo link).1.unnumbered ∧
      (server.rest c).2 = (server.solo link).2
  counters : f.counters = Counters.total (f.connections.map Connection.counts)
  numbers : f.numbers.Perm (List.range' 1 f.counters.issued)

theorem sound_start (server : Server ω) (links : List Link) :
    Sound server links (start links) := by
  refine ⟨List.length_map _, ?_, ?_, ?_⟩
  · intro i link c here there
    rw [start, List.getElem?_map, here] at there
    cases there
    exact ⟨rfl, rfl⟩
  · induction links with
    | nil => rfl
    | cons link links ih => exact congrArg ({} : Counters).behind ih
  · have none : (start (ω := ω) links).numbers = [] := by
      rw [Floor.numbers, start, List.flatMap_map]
      exact List.flatMap_eq_nil_iff.mpr fun _ _ => rfl
    rw [none]
    exact .refl _

theorem turn_of_some (here : f.connections[i]? = some c) :
    f.turn server i = {
      counters := (server.turn (f.counters.issued + 1) c).1.on f.counters
      connections := f.connections.set i (server.advance (f.counters.issued + 1) c) } := by
  rw [turn, here]

theorem connections_set (here : f.connections[i]? = some c) (c' : Connection ω) :
    ∃ front back, f.connections = front ++ c :: back ∧
      f.connections.set i c' = front ++ c' :: back := by
  obtain ⟨within, rfl⟩ := List.getElem?_eq_some_iff.mp here
  obtain ⟨front, back, split, _, set⟩ := List.exists_of_set within
  exact ⟨front, back, split, set⟩

theorem numbers_set (here : f.connections[i]? = some c) (c' : Connection ω) :
    ∃ front back, f.numbers = front ++ (c.numbers ++ back) ∧
      (f.connections.set i c').flatMap Connection.numbers = front ++ (c'.numbers ++ back) := by
  obtain ⟨front, back, split, set⟩ := connections_set here c'
  have together : f.numbers = (front ++ c :: back).flatMap Connection.numbers :=
    congrArg (·.flatMap Connection.numbers) split
  rw [List.flatMap_append, List.flatMap_cons] at together
  rw [set, List.flatMap_append, List.flatMap_cons]
  exact ⟨_, _, together, rfl⟩

/-- What holds of connections side by side holds behind a turn of any of them. -/
theorem Sound.turn (sound : Sound server links f) (i : Nat) :
    Sound server links (f.turn server i) := by
  cases here : f.connections[i]? with
  | none =>
      rw [Floor.turn, here]
      exact sound
  | some c =>
      rw [turn_of_some here]
      obtain ⟨within, got⟩ := List.getElem?_eq_some_iff.mp here
      refine ⟨(List.length_set ..).trans sound.size, ?_, ?_, ?_⟩
      · intro j link d linked there
        by_cases same : i = j
        · subst same
          rw [List.getElem?_set_self within] at there
          cases there
          obtain ⟨out, session⟩ := server.rest_advance (f.counters.issued + 1) c
          obtain ⟨own, left⟩ := sound.rest i link c linked here
          exact ⟨out.trans own, session.trans left⟩
        · rw [List.getElem?_set_ne same] at there
          exact sound.rest j link d linked there
      · have counted : (f.connections.map Connection.counts)[i]? = some c.counts := by
          rw [List.getElem?_map, here]
          rfl
        rw [List.map_set, Server.counts_advance, Effect.total_set _ counted, ← sound.counters]
      · obtain ⟨front, back, before, behind⟩ :=
          numbers_set here (server.advance (f.counters.issued + 1) c)
        have numbers := sound.numbers
        rw [before] at numbers
        rw [Floor.numbers, behind]
        rcases server.numbers_advance (f.counters.issued + 1) c with ⟨issues, taken⟩ | ⟨none, kept⟩
        · have next : List.range' 1 (f.counters.issued + 1) =
              List.range' 1 f.counters.issued ++ [f.counters.issued + 1] := by
            rw [List.range'_1_concat, Nat.add_comm 1]
          rw [issues, taken, List.cons_append]
          refine List.perm_middle.trans ((numbers.cons _).trans ?_)
          exact (List.perm_append_singleton _ _).symm.trans (.of_eq next.symm)
        · rw [Effect.issued_on _ none, kept]
          exact numbers

theorem Sound.run (sound : Sound server links f) (order : List Nat) :
    Sound server links (f.run server order) := by
  induction order generalizing f with
  | nil => exact sound
  | cons i order ih => exact ih (sound.turn i)

def Ended (f : Floor ω) : Prop :=
  ∀ c ∈ f.connections, ∃ result, c.place = .returned result ∧ result ≠ .stuck

def left (f : Floor ω) : Nat := (f.connections.map Connection.left).sum

theorem left_turn (server : Server ω) (here : f.connections[i]? = some c) (on : ¬ c.Returned) :
    (f.turn server i).left < f.left := by
  obtain ⟨front, back, split, set⟩ :=
    connections_set here (server.advance (f.counters.issued + 1) c)
  have before : f.left = ((front ++ c :: back).map Connection.left).sum :=
    congrArg (fun all => (all.map Connection.left).sum) split
  rw [turn_of_some here, before, left]
  simp only [set, List.map_append, List.map_cons, List.sum_append, List.sum_cons]
  have less := server.left_advance (f.counters.issued + 1) on
  omega

/-- Whatever turns there were, others bring all connections to an end. -/
theorem run_returned (server : Server ω) (f : Floor ω) :
    ∃ order, ∀ c ∈ (f.run server order).connections, c.Returned := by
  induction size : f.left using Nat.strongRecOn generalizing f with
  | ind n ih =>
      subst size
      by_cases ended : ∀ c ∈ f.connections, c.Returned
      · exact ⟨[], ended⟩
      · obtain ⟨c, member, on⟩ := by simpa only [not_forall] using ended
        obtain ⟨i, here⟩ := List.getElem?_of_mem member
        obtain ⟨order, returned⟩ := ih _ (left_turn server here on) _ rfl
        exact ⟨i :: order, returned⟩

theorem Sound.of_returned {link : Link} {result : Outcome ServerError Unit}
    (sound : Sound server links f) (linked : links[i]? = some link)
    (here : f.connections[i]? = some c) (place : c.place = .returned result) :
    result.unnumbered = (server.solo link).1.unnumbered ∧ c.session = (server.solo link).2 := by
  have own := sound.rest i link c linked here
  rw [Server.rest, place] at own
  exact own

/-- Where all have returned, each has counted what it counts alone. -/
theorem Sound.counts (sound : Sound server links f) (ended : f.Ended) :
    f.connections.map Connection.counts = links.map fun link => (server.solo link).2.counters := by
  refine List.ext_getElem (by simp only [List.length_map, sound.size]) ?_
  intro i within within'
  rw [List.length_map] at within within'
  simp only [List.getElem_map]
  obtain ⟨result, place, _⟩ := ended _ (List.getElem_mem within)
  have own := sound.of_returned (List.getElem?_eq_getElem within')
    (List.getElem?_eq_getElem within) place
  exact congrArg Session.counters own.2

theorem Sound.solo_returned {link : Link} (sound : Sound server links f) (ended : f.Ended)
    (member : link ∈ links) : (server.solo link).1 ≠ .stuck := by
  obtain ⟨i, linked⟩ := List.getElem?_of_mem member
  have within : i < f.connections.length :=
    sound.size ▸ (List.getElem?_eq_some_iff.mp linked).1
  obtain ⟨result, place, returned⟩ := ended _ (List.getElem_mem within)
  obtain ⟨same, _⟩ := sound.of_returned linked (List.getElem?_eq_getElem within) place
  intro stuck
  rw [stuck] at same
  cases result with
  | ok | error => cases same
  | stuck => exact returned rfl

theorem balance_solo (server : Server ω) (returned : ∀ link ∈ links, (server.solo link).1 ≠ .stuck) :
    let counts := Counters.total (links.map fun link => (server.solo link).2.counters)
    counts.issued + links.countP (fun link => server.endsUnread (.fresh link)) =
      counts.completed + counts.aborted := by
  induction links with
  | nil => rfl
  | cons link links ih =>
      obtain ⟨own, others⟩ := List.forall_mem_cons.mp returned
      have first : (server.solo link).2.counters.issued + (server.endsUnread (.fresh link)).toNat =
          (server.solo link).2.counters.completed + (server.solo link).2.counters.aborted :=
        Server.serve_balance rfl own
      have later := ih others
      simp only [Counters.total, List.map_cons, List.foldr_cons, Counters.behind,
        List.countP_cons] at later ⊢
      cases unread : server.endsUnread (.fresh link) with
      | false =>
          simp only [unread, Bool.toNat_false, Bool.false_eq_true, if_false] at first ⊢
          omega
      | true =>
          simp only [unread, Bool.toNat_true, if_true] at first ⊢
          omega

end Floor

/-- Connections do not influence each other. In whatever order they take their turns until all have
returned, each has written, noted and counted what it does alone on a fresh server, and its result is
the same but for the number in an error. No number is given twice, and none is left out. The counters
are the sums of what is counted alone, and the numbers are as many as the exchanges that were completed
or aborted, less the heads that could not be read. -/
theorem Server.serve_interleaved (server : Server ω) (links : List Link) (order : List Nat)
    (ended : ((Floor.start links).run server order).Ended) :
    let floor := (Floor.start links).run server order
    let alone := links.map server.solo
    floor.connections.length = links.length ∧
      (∀ (i : Nat) (own : Outcome ServerError Unit × Session ω) (c : Connection ω),
        alone[i]? = some own → floor.connections[i]? = some c →
          c.session = own.2 ∧
            ∃ result, c.place = .returned result ∧ result.unnumbered = own.1.unnumbered) ∧
      floor.numbers.Nodup ∧ floor.numbers.Perm (List.range' 1 floor.counters.issued) ∧
      floor.counters.completed = (alone.map (·.2.counters.completed)).sum ∧
      floor.counters.aborted = (alone.map (·.2.counters.aborted)).sum ∧
      floor.counters.issued + links.countP (fun link => server.endsUnread (.fresh link)) =
        floor.counters.completed + floor.counters.aborted := by
  intro floor alone
  have sound : floor.Sound server links := (Floor.sound_start server links).run order
  have counters := sound.counters
  rw [sound.counts ended] at counters
  refine ⟨sound.size, ?_, ?_, sound.numbers, ?_, ?_, ?_⟩
  · intro i own c there here
    obtain ⟨result, place, _⟩ := ended c (List.mem_of_getElem? here)
    obtain ⟨link, linked, rfl⟩ := Option.map_eq_some_iff.mp (List.getElem?_map ▸ there)
    obtain ⟨same, session⟩ := sound.of_returned linked here place
    exact ⟨session, result, place, same⟩
  · exact sound.numbers.nodup_iff.mpr List.nodup_range'
  · rw [counters, Counters.completed_total, List.map_map, List.map_map]
    rfl
  · rw [counters, Counters.aborted_total, List.map_map, List.map_map]
    rfl
  · rw [counters]
    exact Floor.balance_solo server fun link member => sound.solo_returned ended member

/-- A request whose response fails behind its head, two bytes of a head, and a request for nothing
that there is. The first one gets the second number, and alone it gets the first. -/
theorem Server.serve_interleaved_three :
    let failing : Handler Unit := fun _ =>
      .respond { status := .ok, body := .ofProducer (.script [.raise "gone"]) }
    let server : Server Unit :=
      { config := {}, routes := ⟨[⟨.get, ⟨"/", [.literal ""]⟩, failing⟩]⟩ }
    let link (text : String) : Link := {
      clock := { limit := 0 }
      reader := { arrivals := [.bytes (Utf8.encode text)], capacity := 64 }
      writer := {} }
    let links := [link "GET / HTTP/1.1\r\nHost: a\r\n\r\n", link "GE",
      link "GET /a HTTP/1.1\r\nHost: a\r\n\r\n"]
    let floor := (Floor.start links).run server (List.replicate 10 [2, 0, 1]).flatten
    let raised := BodyError.postCommit 0 (.raised "gone")
    let cut := ServerError.body (.wire .incomplete)
    floor.Ended ∧ floor.counters = ⟨2, 1, 2⟩ ∧
      floor.connections.map Connection.place =
        [.returned (.error (.aborted 2 raised)), .returned (.error cut), .returned (.ok ())] ∧
      (links.map server.solo).map Prod.fst = [.error (.aborted 1 raised), .error cut, .ok ()] ∧
      links.countP (fun link => server.endsUnread (.fresh link)) = 1 ∧
      floor.numbers.Nodup ∧
      ∀ (i : Nat) (own : Outcome ServerError Unit × Session Unit) (c : Connection Unit),
        (links.map server.solo)[i]? = some own → floor.connections[i]? = some c →
          c.session = own.2 := by
  intro failing server link links floor raised cut
  have places : floor.connections.map Connection.place =
      [.returned (.error (.aborted 2 raised)), .returned (.error cut), .returned (.ok ())] := by
    dsimp only [floor, links, link, server, failing, raised, cut]
    decide +kernel
  have ended : floor.Ended := by
    intro c member
    have place := List.mem_map_of_mem (f := Connection.place) member
    rw [places] at place
    simp only [List.mem_cons, List.not_mem_nil, or_false] at place
    rcases place with place | place | place
    all_goals
      refine ⟨_, place, ?_⟩
      intro stuck
      cases stuck
  obtain ⟨_, same, distinct, _⟩ := serve_interleaved server links _ ended
  refine ⟨ended, ?_, places, ?_, ?_, distinct, ?_⟩
  · dsimp only [floor, links, link, server, failing]
    decide +kernel
  · dsimp only [links, link, server, failing, raised, cut]
    decide +kernel
  · dsimp only [links, link, server, failing]
    decide +kernel
  · intro i own c there here
    exact (same i own c there here).1

end HttpExchange
