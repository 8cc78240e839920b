import HttpExchange.Proofs.Body.History

/-!
One chunk in flight. The producer is asked for a chunk only when the one before it is whole on the
wire and passed on, and behind anything that went wrong it is not asked at all.
-/

namespace HttpExchange

namespace Delivery

namespace Event

def isFinal : Event → Bool
  | pull _ (.chunk _) _ | wrote _ | flush (.ok _) => false
  | pull _ _ _ | unwritten | flush _ => true

def Quiet (events : List Event) : Prop := ∀ e ∈ events, e.isPull = false

variable {events more before after between : List Event} {e : Event}

theorem quiet_nil : Quiet [] := List.forall_mem_nil _

theorem quiet_flush (out : Outcome WireError Unit) : Quiet [.flush out] := by
  intro e member
  rw [List.mem_singleton.mp member]
  rfl

theorem chunks_append (first second : List Event) :
    chunks (first ++ second) = chunks first ++ chunks second := List.filterMap_append

theorem chunks_pull (moment : Nat) (b : Bytes) (permit : Bool) (events : List Event) :
    chunks (.pull moment (.chunk b) permit :: events) = b :: chunks events := rfl

theorem Quiet.chunks (quiet : Quiet events) : chunks events = [] := by
  rw [Event.chunks, List.filterMap_eq_nil_iff]
  intro e member
  cases e with
  | pull moment answer permit => cases quiet _ member
  | wrote b | unwritten | flush out => rfl

/-- Where a kind of event is absent from the front, it is met behind it. -/
theorem split_behind {kind : Event → Bool} (absent : ∀ e ∈ events, kind e = false)
    (met : kind e = true) (split : events ++ more = before ++ e :: after) :
    ∃ between, before = events ++ between ∧ more = between ++ e :: after := by
  rcases List.append_eq_append_iff.mp split with ⟨between, front, back⟩ | ⟨rest, front, back⟩
  · exact ⟨between, front, back⟩
  · cases rest with
    | nil =>
        rw [List.append_nil] at front
        exact ⟨[], by rw [front, List.append_nil], back.symm⟩
    | cons first rest =>
        cases back
        have member : e ∈ events := front ▸ List.mem_append_right before List.mem_cons_self
        exact absurd ((absent e member).symm.trans met) Bool.false_ne_true

theorem split_front {kind : Event → Bool} {first : Event} (absent : ∀ e ∈ events, kind e = false)
    (met : kind e = true) (split : first :: events = before ++ e :: after) :
    before = [] ∧ e = first ∧ after = events := by
  cases before with
  | nil =>
      cases split
      exact ⟨rfl, rfl, rfl⟩
  | cons other before =>
      cases split
      have member : e ∈ before ++ e :: after := List.mem_append_right before List.mem_cons_self
      exact absurd ((absent e member).symm.trans met) Bool.false_ne_true

end Event

variable {d d' d₁ : Delivery} {events sent before between after : List Event} {b : Bytes}
  {out : Outcome BodyError Nat} {wired : Outcome WireError Unit} {moment moment' : Nat}
  {answer answer' : Pull} {permit permit' : Bool}

theorem Sends.mem {e : Event} (sends : Sends b sent wired) (member : e ∈ sent) :
    (∃ part, e = .wrote part) ∨ e = .flush wired ∨ e = .unwritten ∧ wired ≠ .ok () := by
  cases sends with
  | whole parts all =>
      rcases List.mem_append.mp member with wrote | passed
      · obtain ⟨part, _, same⟩ := List.mem_map.mp wrote
        exact .inl ⟨part, same.symm⟩
      · exact .inr (.inl (List.mem_singleton.mp passed))
  | cut parts beginning failed =>
      rcases List.mem_append.mp member with wrote | unwritten
      · obtain ⟨part, _, same⟩ := List.mem_map.mp wrote
        exact .inl ⟨part, same.symm⟩
      · exact .inr (.inr ⟨List.mem_singleton.mp unwritten, failed⟩)

theorem Sends.quiet (sends : Sends b sent wired) : Event.Quiet sent := by
  intro e member
  rcases sends.mem member with ⟨_, rfl⟩ | rfl | ⟨rfl, _⟩ <;> rfl

theorem Sends.parts (sends : Sends b sent (.ok ())) :
    ∃ parts : List Bytes, sent = parts.map .wrote ++ [.flush (.ok ())] ∧ parts.flatten = b := by
  cases sends with
  | whole parts all => exact ⟨parts, rfl, all⟩
  | cut parts beginning failed => exact absurd rfl failed

theorem Sends.not_final (sends : Sends b sent (.ok ())) : ∀ e ∈ sent, e.isFinal = false := by
  intro e member
  rcases sends.mem member with ⟨_, rfl⟩ | rfl | ⟨_, failed⟩
  · rfl
  · rfl
  · exact absurd rfl failed

/-- A turn begins with its demand and makes no other. -/
theorem Turn.demand (turn : Turn d events d₁) :
    ∃ moment b permit sent, events = .pull moment (.chunk b) permit :: sent ∧ Event.Quiet sent ∧
      (∀ e ∈ sent, e.isFinal = false) ∧ d₁.framing = d.framing ∧
      (b = [] ∧ sent = [] ∧ d₁.pending = d.pending ∨
        b ≠ [] ∧ Sends (d.pending ++ d.framing.frame b) sent (.ok ()) ∧ d₁.pending = []) := by
  cases turn with
  | skip moment permit =>
      exact ⟨moment, [], permit, [], rfl, Event.quiet_nil, List.forall_mem_nil _, rfl, .inl ⟨rfl, rfl, rfl⟩⟩
  | @deliver moment b permit some sent sends =>
      exact ⟨moment, b, permit, sent, rfl, sends.quiet, sends.not_final, rfl,
        .inr ⟨some, sends, rfl⟩⟩

theorem Last.demand (last : Last d events out d') :
    events = [] ∨ ∃ moment answer permit sent, events = .pull moment answer permit :: sent ∧
      Event.Quiet sent := by
  cases last with
  | unasked => exact .inl rfl
  | cancelled | failed | stuck | overrun | short => exact .inr ⟨_, _, _, [], rfl, Event.quiet_nil⟩
  | undelivered moment permit some sends => exact .inr ⟨_, _, _, _, rfl, sends.quiet⟩
  | ended moment permit sends => exact .inr ⟨_, _, _, _, rfl, sends.quiet⟩

theorem Unfolds.starts (unfolds : Unfolds d events out d') :
    events = [] ∨ ∃ moment answer permit more, events = .pull moment answer permit :: more := by
  cases unfolds with
  | last last =>
      rcases last.demand with none | ⟨_, _, _, _, same, _⟩
      · exact .inl none
      · exact .inr ⟨_, _, _, _, same⟩
  | turn turn rest =>
      obtain ⟨_, _, _, _, rfl, _⟩ := turn.demand
      exact .inr ⟨_, _, _, _, List.cons_append⟩

/-- What unfolds begins with a demand: no quiet front can be split off. -/
theorem Unfolds.split_quiet (unfolds : Unfolds d (between ++ .pull moment answer permit :: after)
    out d') (quiet : Event.Quiet between) : between = [] := by
  cases between with
  | nil => rfl
  | cons first between =>
      rcases unfolds.starts with none | ⟨_, _, _, _, same⟩
      · cases none
      · cases same
        cases quiet _ List.mem_cons_self

/-- From each demand on a delivery unfolds again, with the head gone once a chunk has bytes. -/
theorem Unfolds.at_pull (unfolds : Unfolds d events out d')
    (split : events = before ++ .pull moment answer permit :: after) :
    ∃ d₁, Unfolds d₁ (.pull moment answer permit :: after) out d' ∧ d₁.framing = d.framing ∧
      d₁.pending = if filled (Event.chunks before) = [] then d.pending else [] := by
  induction unfolds generalizing before with
  | last last =>
      rcases last.demand with rfl | ⟨_, _, _, sent, rfl, quiet⟩
      · cases List.append_eq_nil_iff.mp split.symm |>.2
      · obtain ⟨rfl, same, rfl⟩ := Event.split_front quiet rfl split
        cases same
        exact ⟨_, .last last, rfl, rfl⟩
  | @turn d d₁ d' events more out turn rest ih =>
      obtain ⟨m, b, granted, sent, rfl, quiet, _, framing, kind⟩ := turn.demand
      cases before with
      | nil =>
          rw [List.nil_append] at split
          exact ⟨d, split ▸ .turn turn rest, rfl, rfl⟩
      | cons first before =>
          rw [List.cons_append, List.cons_append, List.cons.injEq] at split
          obtain ⟨rfl, split⟩ := split
          obtain ⟨between, rfl, later⟩ := Event.split_behind quiet rfl split
          obtain ⟨d₂, here, same, pending⟩ := ih later
          refine ⟨d₂, here, same.trans framing, pending.trans ?_⟩
          have pulled : Event.chunks (.pull m (.chunk b) granted :: (sent ++ between)) =
              b :: Event.chunks between := by
            rw [Event.chunks_pull, Event.chunks_append, quiet.chunks, List.nil_append]
          rw [pulled]
          rcases kind with ⟨rfl, _, held⟩ | ⟨some, _, gone⟩
          · rw [held]
            rfl
          · rw [filled_cons_of_ne_nil some, if_neg (List.cons_ne_nil _ _), gone, ite_self]

theorem Unfolds.next_pull (unfolds : Unfolds d (.pull moment (.chunk b) permit :: between ++
    .pull moment' answer' permit' :: after) out d') (quiet : Event.Quiet between) :
    (b = [] ∧ between = []) ∨
      (b ≠ [] ∧ Sends (d.pending ++ d.framing.frame b) between (.ok ())) := by
  generalize same : Event.pull moment (.chunk b) permit :: between ++
    .pull moment' answer' permit' :: after = events at unfolds
  cases unfolds with
  | last last =>
      rcases last.demand with rfl | ⟨_, _, _, sent, rfl, silent⟩
      · cases same
      · cases same
        cases silent _ (List.mem_append_right between List.mem_cons_self)
  | @turn _ d₁ _ events more _ turn rest =>
      obtain ⟨m, x, granted, sent, rfl, silent, _, _, kind⟩ := turn.demand
      rw [List.cons_append, List.cons_append, List.cons.injEq] at same
      obtain ⟨first, same⟩ := same
      cases first
      obtain ⟨extra, rfl, later⟩ := Event.split_behind silent rfl same.symm
      subst later
      have none : extra = [] :=
        rest.split_quiet fun e member => quiet e (List.mem_append_right sent member)
      rw [none, List.append_nil]
      rcases kind with ⟨empty, unsent, _⟩ | ⟨some, sends, _⟩
      · exact .inl ⟨empty, unsent⟩
      · exact .inr ⟨some, sends⟩

/-- No demand follows what is final. -/
theorem Unfolds.after_final {e : Event} (unfolds : Unfolds d events out d')
    (split : events = before ++ e :: after) (final : e.isFinal = true) : Event.Quiet after := by
  induction unfolds generalizing before with
  | last last =>
      rcases last.demand with rfl | ⟨_, _, _, sent, rfl, quiet⟩
      · cases List.append_eq_nil_iff.mp split.symm |>.2
      · intro x member
        cases before with
        | nil =>
            cases split
            exact quiet x member
        | cons first before =>
            cases split
            exact quiet x (List.mem_append_right before (List.mem_cons_of_mem e member))
  | turn turn rest ih =>
      obtain ⟨m, b, granted, sent, rfl, _, open_, _, _⟩ := turn.demand
      have unfinal : ∀ x ∈ Event.pull m (.chunk b) granted :: sent, x.isFinal = false := by
        intro x member
        rcases List.mem_cons.mp member with rfl | inside
        · rfl
        · exact open_ x inside
      obtain ⟨_, _, later⟩ := Event.split_behind unfinal final split
      exact ih later

/-- One chunk is in flight at most. The head that is held back goes in front of the first frame. -/
structure OneInFlight (f : Framing) (head : Bytes) (events : List Event) : Prop where
  /-- No demand comes before a flush in order, with which all begins. -/
  flushed : ∀ before moment answer permit after,
    events = before ++ .pull moment answer permit :: after →
    ∃ more, before = .flush (.ok ()) :: more
  /-- Between a chunk with bytes and the next demand its frame is written and passed on. -/
  written : ∀ before moment b permit between moment' answer permit' after,
    events = before ++ .pull moment (.chunk b) permit :: between ++
      .pull moment' answer permit' :: after →
    Event.Quiet between → b ≠ [] →
    ∃ parts : List Bytes, between = parts.map .wrote ++ [.flush (.ok ())] ∧
      parts.flatten = (if filled (Event.chunks before) = [] then head else []) ++ f.frame b
  /-- Between a chunk without bytes and the next demand nothing happens. -/
  skipped : ∀ before moment permit between moment' answer permit' after,
    events = before ++ .pull moment (.chunk []) permit :: between ++
      .pull moment' answer permit' :: after →
    Event.Quiet between → between = []
  /-- No demand follows a write or a flush that failed, or any answer but a chunk. -/
  halted : ∀ before e after, events = before ++ e :: after → e.isFinal = true → Event.Quiet after

theorem oneInFlight_of_quiet (f : Framing) (head : Bytes) (quiet : Event.Quiet events) :
    OneInFlight f head events := by
  have unasked : ∀ {before moment answer permit after},
      events ≠ before ++ .pull moment answer permit :: after := by
    rintro before moment answer permit after rfl
    cases quiet _ (List.mem_append_right before List.mem_cons_self)
  refine ⟨?_, ?_, ?_, ?_⟩
  · intro before moment answer permit after split
    exact absurd split unasked
  · intro before moment b permit between moment' answer permit' after split
    exact absurd split unasked
  · intro before moment permit between moment' answer permit' after split
    exact absurd split unasked
  · rintro before e after rfl _ x member
    exact quiet x (List.mem_append_right before (List.mem_cons_of_mem e member))

theorem oneInFlight_of_unfolds (unfolds : Unfolds d events out d') :
    OneInFlight d.framing d.pending (.flush (.ok ()) :: events) := by
  -- the flush in front is no demand, and it is not final
  have behind : ∀ (kind : Event → Bool) {before e after}, kind (.flush (.ok ())) = false →
      kind e = true → .flush (.ok ()) :: events = before ++ e :: after →
      ∃ more, before = .flush (.ok ()) :: more ∧ events = more ++ e :: after := by
    intro kind before e after other met split
    have absent : ∀ x ∈ [Event.flush (.ok ())], kind x = false := by
      intro x member
      rw [List.mem_singleton.mp member, other]
    exact Event.split_behind absent met split
  have asked : ∀ {before moment answer permit after},
      .flush (.ok ()) :: events = before ++ .pull moment answer permit :: after →
      ∃ more, before = .flush (.ok ()) :: more ∧
        events = more ++ .pull moment answer permit :: after :=
    behind Event.isPull rfl rfl
  refine ⟨?_, ?_, ?_, ?_⟩
  · intro before moment answer permit after split
    obtain ⟨more, same, _⟩ := asked split
    exact ⟨more, same⟩
  · intro before moment b permit between moment' answer permit' after split quiet some
    rw [List.append_assoc] at split
    obtain ⟨more, rfl, later⟩ := asked split
    obtain ⟨d₁, here, framing, pending⟩ := unfolds.at_pull later
    rcases here.next_pull quiet with ⟨none, _⟩ | ⟨_, sends⟩
    · exact absurd none some
    · rw [framing, pending] at sends
      exact sends.parts
  · intro before moment permit between moment' answer permit' after split quiet
    rw [List.append_assoc] at split
    obtain ⟨more, rfl, later⟩ := asked split
    obtain ⟨d₁, here, _, _⟩ := unfolds.at_pull later
    rcases here.next_pull quiet with ⟨_, none⟩ | ⟨some, _⟩
    · exact none
    · exact absurd rfl some
  · intro before e after split final
    obtain ⟨more, _, later⟩ := behind Event.isFinal rfl final split
    exact unfolds.after_final later final

theorem Runs.oneInFlight (runs : Runs d events out d') :
    OneInFlight d.framing d.pending events := by
  cases runs with
  | refused | repeated => exact oneInFlight_of_quiet _ _ Event.quiet_nil
  | unflushed => exact oneInFlight_of_quiet _ _ (Event.quiet_flush _)
  | begun stage unfolds => exact oneInFlight_of_unfolds unfolds

theorem settle_ne_ready (d : Delivery) (out : Outcome BodyError Nat) :
    (d.settle out).stage ≠ .ready := by
  cases out <;> exact nofun

/-- Behind a run nothing happens in another one. -/
theorem Runs.settled (runs : Runs d events out d') (patience : Patience) (p : Producer)
    (l : Link) : d'.history patience p l = [] := by
  have past : d'.stage ≠ .ready := by
    cases runs with
    | refused stage => rw [stage]; exact nofun
    | repeated stage => rw [stage]; exact nofun
    | unflushed => exact nofun
    | begun => exact settle_ne_ready _ _
  unfold history
  cases stage : d'.stage with
  | ready => exact absurd stage past
  | finished => rfl
  | failed => rfl

end Delivery

end HttpExchange
