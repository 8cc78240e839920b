import HttpExchange.Body.Delivery
import HttpExchange.Proofs.Body.Standing

/-!
What becomes of a body that others read. Whoever has a link to read a body from, a handler or a
response that relays it, can only ask for one piece after another. What was answered tells whether
the body came to its end, and then the link stands right behind it.
-/

namespace HttpExchange

/-- Whether an end was answered, and no error before it. -/
def Decoder.endsInOrder : List (Outcome WireError Piece) → Bool
  | [] => false
  | .ok .ended :: _ => true
  | .error _ :: _ => false
  | .ok (.data _) :: answers | .stuck :: answers => endsInOrder answers

namespace Link

open Decoder (Stands endsInOrder)

structure Still (l l' : Link) : Prop where
  body : l'.body = l.body
  reader : l'.reader = l.reader

/-- One answer after another is read off a link. In between it stays still. -/
inductive Reads : Link → List (Outcome WireError Piece) → Link → Prop where
  | none {l l' : Link} (still : l.Still l') : Reads l [] l'
  | next {l l₁ l₂ l' : Link} {out : Outcome WireError Piece}
      {answers : List (Outcome WireError Piece)}
      (still : l.Still l₁) (read : l₁.readPiece = (out, l₂)) (rest : Reads l₂ answers l') :
      Reads l (out :: answers) l'

variable {l l₁ l' : Link} {first second answers : List (Outcome WireError Piece)}
  {f : Framing} {x : Bytes}

theorem Still.refl (l : Link) : l.Still l := ⟨rfl, rfl⟩

theorem Still.trans (before : l.Still l₁) (behind : l₁.Still l') : l.Still l' :=
  ⟨behind.body.trans before.body, behind.reader.trans before.reader⟩

theorem Reads.behind (before : l.Still l₁) (reads : l₁.Reads answers l') : l.Reads answers l' := by
  cases reads with
  | none still => exact .none (before.trans still)
  | next still read rest => exact .next (before.trans still) read rest

theorem Reads.trans (before : l.Reads first l₁) (reads : l₁.Reads second l') :
    l.Reads (first ++ second) l' := by
  induction before with
  | none still => exact reads.behind still
  | next still read rest ih => exact .next still read (ih reads)

theorem Reads.done (reads : l.Reads answers l') (done : l.body.state = .done) :
    l'.reader = l.reader ∧ (l.body.released = true → l'.body.released = true) := by
  induction reads with
  | none still =>
      rw [still.body]
      exact ⟨still.reader, id⟩
  | @next l l₁ l₂ l' out answers still read rest ih =>
      rw [readPiece, still.body, Decoder.next_done done] at read
      cases read
      obtain ⟨reader, released⟩ := ih done
      exact ⟨reader.trans still.reader, fun _ => released rfl⟩

theorem Reads.failed (reads : l.Reads answers l') (failed : l.body.state = .failed) :
    l'.reader = l.reader ∧ l'.body = l.body := by
  induction reads with
  | none still => exact ⟨still.reader, still.body⟩
  | @next l l₁ l₂ l' out answers still read rest ih =>
      rw [readPiece, still.body, Decoder.next_failed failed] at read
      cases read
      obtain ⟨reader, body⟩ := ih failed
      exact ⟨reader.trans still.reader, body⟩

/-- A body has come to its end if an end was answered before any error, and exactly then the reader
is released; it stands behind the body. -/
theorem Reads.stands (reads : l.Reads answers l') (stands : Stands f x l.body.state)
    (fresh : l.body.released = false) :
    ∃ b, l.reader.Takes b l'.reader ∧ l'.body.released = endsInOrder answers ∧
      (endsInOrder answers = true → ∃ chunks, f.Spans (x ++ b) chunks) := by
  induction reads generalizing x with
  | none still =>
      refine ⟨[], ?_, ?_, nofun⟩
      · rw [still.reader]
        exact .refl _
      · rw [still.body]
        exact fresh
  | @next l l₁ l₂ l' out answers still read rest ih =>
      rcases step : l₁.body.next l₁.reader l₁.clock with ⟨out', body, reader, clock⟩
      rw [readPiece, step] at read
      cases read
      rw [← still.body] at stands fresh
      obtain ⟨b, taken, answer⟩ := Decoder.next_stands stands fresh step
      rw [still.reader] at taken
      -- behind an end or an error nothing is read any more, so the first of them decides
      rcases answer with ⟨rfl, done, released, whole⟩ | ⟨⟨e, rfl⟩, failed, fresh'⟩ |
        ⟨more, stands', fresh'⟩
      · obtain ⟨same, kept⟩ := rest.done done
        refine ⟨b, ?_, kept released, fun _ => Decoder.spans_of_stands whole⟩
        rw [same]
        exact taken
      · obtain ⟨same, kept⟩ := rest.failed failed
        refine ⟨b, ?_, ?_, nofun⟩
        · rw [same]
          exact taken
        · rw [kept]
          exact fresh'
      · obtain ⟨b', takes, released, spans⟩ := ih stands' fresh'
        rw [List.append_assoc] at spans
        refine ⟨b ++ b', taken.trans takes, ?_⟩
        rcases more with ⟨data, rfl⟩ | rfl <;> exact ⟨released, spans⟩

/-- From one link to the other the body was read, and nothing else of the input. -/
def OnlyReads (l l' : Link) : Prop := ∃ answers, l.Reads answers l'

theorem Still.onlyReads (still : l.Still l') : l.OnlyReads l' := ⟨[], .none still⟩

theorem OnlyReads.trans (before : l.OnlyReads l₁) (behind : l₁.OnlyReads l') : l.OnlyReads l' := by
  obtain ⟨first, before⟩ := before
  obtain ⟨second, behind⟩ := behind
  exact ⟨first ++ second, before.trans behind⟩

theorem onlyReads_readPiece {out : Outcome WireError Piece} (eq : l.readPiece = (out, l')) :
    l.OnlyReads l' := ⟨[out], .next (.refl l) eq (.none (.refl l'))⟩

theorem still_waitUntil {moment : Nat} {awake : Bool} (eq : l.waitUntil moment = (awake, l')) :
    l.Still l' := by
  cases eq
  exact ⟨rfl, rfl⟩

theorem still_writeAll {b : Bytes} {out : Outcome WireError Unit} (eq : l.writeAll b = (out, l')) :
    l.Still l' := by
  cases eq
  exact ⟨rfl, rfl⟩

theorem still_flush {out : Outcome WireError Unit} (eq : l.flush = (out, l')) : l.Still l' := by
  cases eq
  exact ⟨rfl, rfl⟩

theorem still_send {b : Bytes} {out : Outcome WireError Unit} (eq : l.send b = (out, l')) :
    l.Still l' := by
  cases eq
  exact ⟨rfl, rfl⟩

theorem still_shutdown (l : Link) : l.Still l.shutdown := ⟨rfl, rfl⟩

end Link

namespace Producer

variable {p p' : Producer} {l l' : Link} {pull : Pull} {permit permit' : Bool}
  {steps steps' : List Yield}

theorem still_pullScript (eq : pullScript permit steps l = (pull, steps', permit', l')) :
    l.Still l' := by
  fun_induction pullScript permit steps l
  case case5 ih | case7 ih => exact ih eq
  case case9 awake ih | case12 awake ih => exact (Link.still_waitUntil awake).trans (ih eq)
  case case10 asleep | case13 asleep =>
      cases eq
      exact Link.still_waitUntil asleep
  all_goals
    cases eq
    exact ⟨rfl, rfl⟩

/-- A producer that is no relay reads nothing, and becomes none. -/
theorem still_ask (own : p ≠ incoming) (eq : p.ask l = (pull, p', permit, l')) :
    l.Still l' ∧ p' ≠ incoming := by
  cases p with
  | script steps =>
      rcases pulled : pullScript false steps l with ⟨_, _, _, _⟩
      rw [ask, pulled] at eq
      cases eq
      exact ⟨still_pullScript pulled, nofun⟩
  | known b =>
      cases eq
      exact ⟨.refl l, nofun⟩
  | incoming => exact absurd rfl own

theorem still_askBefore {moment : Nat} (own : p ≠ incoming)
    (eq : p.askBefore moment l = (pull, p', permit, l')) : l.Still l' ∧ p' ≠ incoming := by
  unfold askBefore at eq
  split at eq
  · cases eq
    exact ⟨.refl l, own⟩
  · rcases asked : p.ask { l with clock := l.clock.within moment } with ⟨answer, _, _, l₁⟩
    obtain ⟨⟨body, reader⟩, own'⟩ := still_ask own asked
    rw [asked] at eq
    cases answer with
    | stuck =>
        simp only at eq
        split at eq <;> cases eq <;> exact ⟨⟨body, reader⟩, own'⟩
    | chunk | failed | ended | cancelled =>
        cases eq
        exact ⟨⟨body, reader⟩, own'⟩

/-- A producer that relays the body of its link reads it; the others read nothing. -/
theorem onlyReads_ask (eq : p.ask l = (pull, p', permit, l')) : l.OnlyReads l' := by
  cases p with
  | script steps => exact (still_ask Producer.noConfusion eq).1.onlyReads
  | known b => exact (still_ask Producer.noConfusion eq).1.onlyReads
  | incoming =>
      rcases read : l.readPiece with ⟨(data | _) | e | _, l₁⟩
      all_goals
        rw [ask, read] at eq
        cases eq
        exact Link.onlyReads_readPiece read

theorem onlyReads_askBefore {moment : Nat} (eq : p.askBefore moment l = (pull, p', permit, l')) :
    l.OnlyReads l' := by
  unfold askBefore at eq
  split at eq
  · cases eq
    exact (Link.Still.refl l).onlyReads
  · rcases asked : p.ask { l with clock := l.clock.within moment } with ⟨answer, _, _, l₁⟩
    have limited : l.Still { l with clock := l.clock.within moment } := ⟨rfl, rfl⟩
    have reads := limited.onlyReads.trans (onlyReads_ask asked)
    have behind : ∀ clock, l₁.Still { l₁ with clock } := fun _ => ⟨rfl, rfl⟩
    rw [asked] at eq
    cases answer with
    | stuck =>
        simp only at eq
        split at eq <;> cases eq <;> exact reads.trans (behind _).onlyReads
    | chunk | failed | ended | cancelled =>
        cases eq
        exact reads.trans (behind _).onlyReads

theorem onlyReads_pull (eq : p.pull l = (pull, p', l')) : l.OnlyReads l' := by
  cases eq
  exact onlyReads_ask rfl

theorem onlyReads_collectOnto {before : List Bytes} {out : Outcome BodyError Bytes}
    (eq : collectOnto before p l = (out, l')) : l.OnlyReads l' := by
  fun_induction collectOnto before p l
  case case1 pulled ih => exact (onlyReads_pull pulled).trans (ih eq)
  all_goals
    next pulled =>
      cases eq
      exact onlyReads_pull pulled

end Producer

namespace Delivery

variable {d d' : Delivery} {p p' : Producer} {l l' : Link} {patience : Patience}
  {out : Outcome BodyError Nat}

theorem onlyReads_demand {deadline : Option Nat} {pull : Pull}
    (eq : d.demand deadline p l = (pull, p', d', l')) : l.OnlyReads l' := by
  unfold demand at eq
  split at eq
  · cases eq
    exact (Link.Still.refl l).onlyReads
  · cases deadline <;> cases eq
    · exact Producer.onlyReads_ask rfl
    · exact Producer.onlyReads_askBefore rfl

theorem still_deliver {b : Bytes} {out : Outcome BodyError Unit}
    (eq : d.deliver b l = (out, d', l')) : l.Still l' := by
  unfold deliver at eq
  split at eq
  · cases eq
    exact .refl l
  · split at eq <;> next wrote =>
      cases eq
      exact Link.still_writeAll wrote

theorem still_finish (eq : d.finish l = (out, d', l')) : l.Still l' := by
  unfold finish at eq
  split at eq
  · cases eq
    exact .refl l
  · cases eq
    exact Link.still_send rfl

theorem still_demand {deadline : Option Nat} {pull : Pull} (own : p ≠ .incoming)
    (eq : d.demand deadline p l = (pull, p', d', l')) : l.Still l' ∧ p' ≠ .incoming := by
  unfold demand at eq
  split at eq
  · cases eq
    exact ⟨.refl l, own⟩
  · cases deadline <;> cases eq
    · exact Producer.still_ask own rfl
    · exact Producer.still_askBefore own rfl

theorem still_loop {last : Nat} (own : p ≠ .incoming)
    (eq : loop patience last d p l = (out, d', l')) : l.Still l' := by
  fun_induction loop patience last d p l
  case case1 asked _ ih =>
      obtain ⟨still, own'⟩ := still_demand own asked
      exact still.trans (ih own' eq)
  case case2 asked _ _ _ wrote _ passed ih =>
      obtain ⟨still, own'⟩ := still_demand own asked
      have written := (still_deliver wrote).trans (Link.still_flush passed)
      exact (still.trans written).trans (ih own' eq)
  case case3 asked _ _ _ wrote _ _ passed | case4 asked _ _ _ wrote _ passed =>
      cases eq
      have written := (still_deliver wrote).trans (Link.still_flush passed)
      exact (still_demand own asked).1.trans written
  case case5 asked _ _ _ _ wrote | case6 asked _ _ _ wrote =>
      cases eq
      exact (still_demand own asked).1.trans (still_deliver wrote)
  case case8 asked => exact (still_demand own asked).1.trans (still_finish eq)
  all_goals
    next asked =>
      cases eq
      exact (still_demand own asked).1

theorem still_run (own : p ≠ .incoming) (eq : d.run patience p l = (out, d', l')) :
    l.Still l' := by
  unfold run at eq
  split at eq
  · cases eq
    exact .refl l
  · cases eq
    exact .refl l
  · rcases started : d.start patience p l with ⟨out₁, d₁, l₁⟩
    rw [started] at eq
    cases eq
    unfold start at started
    split at started
    · next passed => exact (Link.still_flush passed).trans (still_loop own started)
    all_goals
      next passed =>
        cases started
        exact Link.still_flush passed

theorem onlyReads_loop {last : Nat} (eq : loop patience last d p l = (out, d', l')) :
    l.OnlyReads l' := by
  fun_induction loop patience last d p l
  case case1 asked _ ih => exact (onlyReads_demand asked).trans (ih eq)
  case case2 asked _ _ _ wrote _ passed ih =>
      have written := (still_deliver wrote).trans (Link.still_flush passed)
      exact ((onlyReads_demand asked).trans written.onlyReads).trans (ih eq)
  case case3 asked _ _ _ wrote _ _ passed | case4 asked _ _ _ wrote _ passed =>
      cases eq
      have written := (still_deliver wrote).trans (Link.still_flush passed)
      exact (onlyReads_demand asked).trans written.onlyReads
  case case5 asked _ _ _ _ wrote | case6 asked _ _ _ wrote =>
      cases eq
      exact (onlyReads_demand asked).trans (still_deliver wrote).onlyReads
  case case8 asked => exact (onlyReads_demand asked).trans (still_finish eq).onlyReads
  all_goals
    next asked =>
      cases eq
      exact onlyReads_demand asked

theorem onlyReads_start (eq : d.start patience p l = (out, d', l')) : l.OnlyReads l' := by
  unfold start at eq
  split at eq
  · next passed => exact (Link.still_flush passed).onlyReads.trans (onlyReads_loop eq)
  all_goals
    next passed =>
      cases eq
      exact (Link.still_flush passed).onlyReads

theorem onlyReads_run (eq : d.run patience p l = (out, d', l')) : l.OnlyReads l' := by
  unfold run at eq
  split at eq <;> cases eq
  · exact (Link.Still.refl l).onlyReads
  · exact (Link.Still.refl l).onlyReads
  · exact onlyReads_start rfl

end Delivery

end HttpExchange
